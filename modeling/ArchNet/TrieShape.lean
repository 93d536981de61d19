import ArchNet.Router
import ArchNet.TrieGrowth

/-!
# The Shape of a Trie

What the patterns that were added say about the nodes of a trie: every prefix of a pattern is the
pattern of one linked node, and nothing else is in the trie, whatever the order was.

## Conventions

The pattern of a node is read along its `parent` pointers. A parameter segment that is added again
leaves a node that no link leads to; it has the pattern of the parameter child that stands in its
place.

Names are compared up to their first NUL. Where the segments of the patterns are `Apart`, names that
compare as equal are equal.

## Main definitions

* `Label.ofSegment`, `normal`: the labels of a pattern.
* `patternOf`: the pattern of a node, from the root.
* `HasPattern`, `At`: the node has the pattern; a chain of links with these labels leads to it.
* `Shape`: the patterns of all nodes, and those of the endpoints.

## Main results

* `getOrNewNode_cases`: what one segment does to the trie.
* `addAll_shape`: **the shape is made by the set of the patterns**.
-/

open Bytes

namespace ArchNet.Routing

variable {M : Type}

namespace Label

/-- The label of a segment, as it is written: there is none where the code throws while it takes
a parameter apart. -/
def ofSegment (segment : Text) : Option Label :=
  let frag := fragOf segment
  if frag.head? = some 58 then
    match colonParts frag with
    | .error _ => none
    | .ok (name, regex) => some (.param name regex)
  else some (.literal frag)

/-- `strcmp` takes the labels for equal. -/
def same : Label → Label → Bool
  | literal key, literal key' => sameName key key'
  | param name regex, param name' regex' => sameName name name' && sameName regex regex'
  | _, _ => false

end Label

/-- The labels of a pattern. -/
def normal (pattern : Text) : List Label := (segmentsOf pattern).filterMap Label.ofSegment

/-- Labels that `strcmp` takes for equal are equal. -/
def Apart (labels : Set Label) : Prop :=
  ∀ l ∈ labels, ∀ l' ∈ labels, l.same l' = true → l = l'

/-- The patterns are added one after the other; `none` if one of them is refused. -/
def TrieData.addAll (env : Env) (t : TrieData M) : List Text → Option (TrieData M)
  | [] => some t
  | p :: ps =>
      match t.addNode env p with
      | (t', .ok _) => t'.addAll env ps
      | (_, .error _) => none

/-- The label of a node below its parent. -/
def labelBelow (t : TrieData M) (p c : ℕ) : Label :=
  match (t.deref p).children.find? fun h => h.val = c with
  | some h => .literal h.key
  | none => .param (t.deref c).name (t.deref c).regex

/-- The labels along a pipeline. -/
def labelsAlong (t : TrieData M) : List ℕ → List Label
  | p :: c :: nodes => labelBelow t p c :: labelsAlong t (c :: nodes)
  | _ => []

/-- **The pattern of a node**: its segments from the root. -/
def patternOf (t : TrieData M) (node : ℕ) : Option (List Label) :=
  (getPipeline t node).map (labelsAlong t)

/-- **The node has the pattern**, by its `parent` pointers. -/
inductive HasPattern (t : TrieData M) : ℕ → List Label → Prop
  | root : HasPattern t 0 []
  | child {p c : ℕ} {d : Node M} {ls : List Label} (hd : t.node? c = some d)
      (hparent : d.parent = some p) (hp : HasPattern t p ls) :
      HasPattern t c (ls ++ [labelBelow t p c])

/-- **Links with these labels lead to the node.** -/
inductive At (t : TrieData M) : ℕ → List Label → Prop
  | root : At t 0 []
  | child {p c : ℕ} {ls : List Label} (hp : At t p ls) (hlink : Child t p c) :
      At t c (ls ++ [labelBelow t p c])

/-- **The shape of a trie**: the patterns of its nodes, each of them linked once, and those of its
endpoints. -/
structure Shape (t : TrieData M) (known ends : Set (List Label)) : Prop where
  pattern : ∀ {i ls}, HasPattern t i ls → ls ∈ known
  present : ∀ {ls}, ls ∈ known → ∃ i, At t i ls
  ends_known : ends ⊆ known
  endpoint : ∀ {i ls}, At t i ls → ((t.deref i).endpoint = true ↔ ls ∈ ends)
  name : ∀ {i ls}, At t i ls → (t.deref i).name = (ls.getLast?.map Label.name).getD []

/-! ### The pattern of a node -/

section Patterns

variable {t t' : TrieData M} {n d : Node M} {i j p c : ℕ} {l : Label} {ls ls' : List Label}

/-- **A literal child** has its key as its label. -/
theorem labelBelow_literal_iff (ht : t.Ok) (hn : t.node? p = some n) {key : Text} :
    labelBelow t p c = .literal key ↔ (⟨key, c⟩ : NodeHolder) ∈ n.children := by
  rw [labelBelow, deref_eq hn]
  cases hfind : n.children.find? (fun h => h.val = c) with
  | none =>
      refine ⟨fun hlabel => (by cases hlabel), fun hmem => ?_⟩
      simpa using List.find?_eq_none.mp hfind _ hmem
  | some h =>
      have hval : h.val = c := by simpa using List.find?_some hfind
      have hmem := List.mem_of_find?_eq_some hfind
      constructor
      · rintro ⟨⟩
        rwa [← hval]
      · intro hmem'
        -- no two entries lead to one node
        have hnodup := (List.nodup_append.mp (ht.linked hn).links).2.1
        rw [List.inj_on_of_nodup_map hnodup hmem hmem' hval]

/-- **The parameter child** has its name and its constraint as its label. -/
theorem labelBelow_param (ht : t.Ok) (hn : t.node? p = some n) (hcolon : n.colonChild = some c) :
    labelBelow t p c = .param (t.deref c).name (t.deref c).regex := by
  rw [labelBelow, deref_eq hn]
  cases hfind : n.children.find? (fun h => h.val = c) with
  | none => rfl
  | some h =>
      have hval : h.val = c := by simpa using List.find?_some hfind
      have hmem : h.val ∈ n.children.map NodeHolder.val :=
        List.mem_map_of_mem (List.mem_of_find?_eq_some hfind)
      have hdisjoint := (List.nodup_append.mp (ht.linked hn).links).2.2
      exact absurd hval.symm (hdisjoint c (by simp [hcolon]) h.val hmem)

/-- A child whose label is a parameter's is the parameter child. -/
theorem colonChild_of_label (ht : t.Ok) (hn : t.node? p = some n) (hlink : Child t p c)
    {name regex : Text} (hlabel : labelBelow t p c = .param name regex) :
    n.colonChild = some c := by
  rw [Child, deref_eq hn] at hlink
  refine hlink.resolve_right fun hmem => ?_
  obtain ⟨h, hh, rfl⟩ := List.mem_map.mp hmem
  rw [(labelBelow_literal_iff ht hn).mpr hh] at hlabel
  cases hlabel

theorem Child.node (h : Child t p c) : ∃ n, t.node? p = some n := by
  cases hn : t.node? p with
  | some n => exact ⟨n, rfl⟩
  | none => simp [Child, TrieData.deref, hn] at h

/-- **Siblings have different labels.** -/
theorem eq_of_labelBelow (ht : t.Ok) (hi : Child t p i) (hj : Child t p j)
    (hlabel : labelBelow t p i = labelBelow t p j) : i = j := by
  obtain ⟨n, hn⟩ := hi.node
  cases hl : labelBelow t p j with
  | param name regex =>
      have hi := colonChild_of_label ht hn hi (hlabel.trans hl)
      have hj := colonChild_of_label ht hn hj hl
      exact Option.some.inj (hi.symm.trans hj)
  | literal key =>
      have hi := (labelBelow_literal_iff ht hn).mp (hlabel.trans hl)
      have hj := (labelBelow_literal_iff ht hn).mp hl
      have hfind : ∀ {k}, (⟨key, k⟩ : NodeHolder) ∈ n.children → t.findChild p key = some k :=
        fun hk => (findChild_eq_some_iff ht hn).mpr ⟨_, hk, beq_self_eq_true _, rfl⟩
      exact Option.some.inj ((hfind hi).symm.trans (hfind hj))

theorem At.hasPattern (ht : t.Ok) (h : At t i ls) : HasPattern t i ls := by
  induction h with
  | root => exact .root
  | child _ hlink ih =>
      obtain ⟨d, hd, hparent⟩ := hlink.parent ht
      exact .child hd hparent ih

theorem HasPattern.node (ht : t.Ok) (h : HasPattern t i ls) : ∃ n, t.node? i = some n := by
  cases h with
  | root =>
      obtain ⟨r, hr, -⟩ := ht.root
      exact ⟨r, hr⟩
  | child hd => exact ⟨_, hd⟩

/-- The parent of a node **is there**, and the root has none. -/
theorem exists_parent (ht : t.Ok) (hn : t.node? i = some n) (hp : n.parent = some p) :
    i ≠ 0 ∧ ∃ m, t.node? p = some m := by
  have hi : i ≠ 0 := by
    rintro rfl
    obtain ⟨r, hr, hnone⟩ := ht.root
    obtain rfl := Option.some.inj (hr.symm.trans hn)
    rw [hnone] at hp
    cases hp
  obtain ⟨q, hq, hlt⟩ := ht.parent hn hi
  obtain rfl := Option.some.inj (hp.symm.trans hq)
  exact ⟨hi, _, List.getElem?_eq_getElem (hlt.trans (lt_of_node? hn))⟩

/-- The root has the empty pattern only. -/
theorem HasPattern.root_eq (ht : t.Ok) (h : HasPattern t 0 ls) : ls = [] := by
  cases h with
  | root => rfl
  | child hd hparent => exact absurd rfl (exists_parent ht hd hparent).1

/-- **A node has one pattern.** -/
theorem HasPattern.eq (ht : t.Ok) (h : HasPattern t i ls) (h' : HasPattern t i ls') : ls = ls' := by
  induction h generalizing ls' with
  | root => exact (h'.root_eq ht).symm
  | child hd hparent _ ih =>
      cases h' with
      | root => exact absurd rfl (exists_parent ht hd hparent).1
      | child hd' hparent' hp' =>
          obtain rfl := Option.some.inj (hd.symm.trans hd')
          obtain rfl := Option.some.inj (hparent.symm.trans hparent')
          rw [ih hp']

/-- Every node has a pattern. -/
theorem exists_pattern (ht : t.Ok) (hn : t.node? i = some n) : ∃ ls, HasPattern t i ls := by
  induction i using Nat.strong_induction_on generalizing n with
  | h i ih =>
      by_cases hi : i = 0
      · exact ⟨[], hi ▸ .root⟩
      · obtain ⟨p, hparent, hlt⟩ := ht.parent hn hi
        obtain ⟨-, m, hm⟩ := exists_parent ht hn hparent
        obtain ⟨ls, hls⟩ := ih p hlt hm
        exact ⟨_, .child hn hparent hls⟩

theorem labelsAlong_snoc (nodes : List ℕ) :
    labelsAlong t (nodes ++ [p, c]) = labelsAlong t (nodes ++ [p]) ++ [labelBelow t p c] := by
  induction nodes with
  | nil => rfl
  | cons q nodes ih =>
      cases nodes with
      | nil => rfl
      | cons q' nodes => exact congrArg (labelBelow t q q' :: ·) ih

/-- **The pattern by the `parent` pointers is the pattern along the pipeline.** -/
theorem HasPattern.patternOf (ht : t.Ok) (h : HasPattern t i ls) : patternOf t i = some ls := by
  -- the pipeline ends at the node
  suffices h : ∃ nodes, getPipeline t i = some (nodes ++ [i]) ∧
      labelsAlong t (nodes ++ [i]) = ls by
    obtain ⟨nodes, hnodes, hlabels⟩ := h
    rw [Routing.patternOf, hnodes, Option.map_some, hlabels]
  induction h with
  | root => exact ⟨[], pathTo_root.getPipeline ht, rfl⟩
  | @child p c d ls hd hparent _ ih =>
      obtain ⟨nodes, hnodes, hlabels⟩ := ih
      refine ⟨nodes ++ [p], ?_, ?_⟩
      · rw [getPipeline, Option.map_eq_some_iff] at hnodes
        obtain ⟨back, hback, heq⟩ := hnodes
        obtain ⟨l, hl⟩ := getPipeline_isSome ht hd
        rw [hl]
        rw [getPipeline, Option.map_eq_some_iff] at hl
        obtain ⟨back', hback', rfl⟩ := hl
        have hup := climb_child hd hparent hback
        have hmax := climb_mono hback' (Nat.le_succ _)
        rw [hup, Option.some.injEq] at hmax
        rw [← hmax, List.reverse_cons, heq]
      · rw [List.append_assoc, List.cons_append, List.nil_append, labelsAlong_snoc, hlabels]

theorem patternOf_eq_some_iff (ht : t.Ok) :
    Routing.patternOf t i = some ls ↔ HasPattern t i ls := by
  refine ⟨fun h => ?_, fun h => h.patternOf ht⟩
  cases hn : t.node? i with
  | none =>
      rw [Routing.patternOf, getPipeline_dangling hn] at h
      cases h
  | some n =>
      obtain ⟨ls', hls'⟩ := exists_pattern ht hn
      rw [hls'.patternOf ht, Option.some.injEq] at h
      rwa [← h]

/-- Links with these labels lead to one node. -/
theorem At.eq (ht : t.Ok) (h : At t i ls) (h' : At t j ls) : i = j := by
  induction h generalizing j with
  | root =>
      generalize hnil : ([] : List Label) = ls at h'
      cases h' with
      | root => rfl
      | child => simp at hnil
  | @child p c ls hp hlink ih =>
      generalize hsnoc : ls ++ [labelBelow t p c] = ls' at h'
      cases h' with
      | root => simp at hsnoc
      | child hp' hlink' =>
          obtain ⟨rfl, hlabel⟩ := List.append_inj' hsnoc rfl
          obtain rfl := ih hp'
          exact eq_of_labelBelow ht hlink hlink' (List.singleton_inj.mp hlabel)

/-- The last link. -/
theorem At.last (h : At t i (ls ++ [l])) :
    ∃ p, At t p ls ∧ Child t p i ∧ labelBelow t p i = l := by
  generalize hsnoc : ls ++ [l] = ls' at h
  cases h with
  | root => simp at hsnoc
  | child hp hlink =>
      obtain ⟨rfl, hlabel⟩ := List.append_inj' hsnoc rfl
      exact ⟨_, hp, hlink, (List.singleton_inj.mp hlabel).symm⟩

/-- The links in front. -/
theorem At.front (h : At t i (ls ++ ls')) : ∃ q, At t q ls := by
  induction ls' using List.reverseRecOn generalizing i with
  | nil => exact ⟨i, List.append_nil ls ▸ h⟩
  | append_singleton ls' l ih =>
      rw [← List.append_assoc] at h
      obtain ⟨q, hq, -⟩ := h.last
      exact ih hq

end Patterns

/-! ### One segment -/

/-- **A trie with more nodes**: the nodes that were there keep their places, and what is new stands
below the node with this label. -/
structure Extends (t t' : TrieData M) (p : ℕ) (l : Label) : Prop where
  old : ∀ {i n}, t.node? i = some n → ∃ n', t'.node? i = some n' ∧ n'.parent = n.parent ∧
    n'.name = n.name ∧ n'.endpoint = n.endpoint
  label : ∀ {q i n}, t.node? i = some n → n.parent = some q →
    labelBelow t' q i = labelBelow t q i
  link : ∀ {q i n}, t.node? i = some n → n.parent = some q → (Child t' q i ↔ Child t q i)
  fresh : ∀ {i m}, t.node? i = none → t'.node? i = some m → m.parent = some p ∧
    labelBelow t' p i = l ∧ m.name = l.name ∧ m.endpoint = false

section Step

variable {env : Env} {t t' : TrieData M} {n n' m : Node M} {i p c : ℕ} {l : Label}
  {ls labels : List Label} {segment : Text} {known ends : Set (List Label)}

theorem ofSegment_of_labelOf {segmentPattern : Text}
    (h : env.labelOf segmentPattern segment = some l) : Label.ofSegment segment = some l := by
  rw [Env.labelOf] at h
  rw [Label.ofSegment]
  split_ifs at h with hempty hhead hcheck
  · rw [hempty] at h ⊢
    exact h
  · rw [if_pos hhead]
    cases hparts : colonParts (fragOf segment) with
    | error e =>
        rw [hparts] at h
        cases h
    | ok parts =>
        rw [hparts] at h
        dsimp only at h ⊢
        split_ifs at h
        exact h
  · rw [if_neg hhead]
    exact h

/-- What a parameter segment does to the trie: it leaves a node without a link, which may be for the
parameter child that is there, or it becomes the parameter child. -/
theorem newColonChild_cases (ht : t.Ok) (hn : t.node? p = some n) {name regex : Text}
    (hempty : fragOf segment ≠ []) (hhead : (fragOf segment).head? = some 58)
    (hparts : colonParts (fragOf segment) = .ok (name, regex)) {r : Except Failure ℕ}
    (h : t.newColonChild env p n (freshNode M env t.counter p [] []) name regex = (t', r)) :
    (∃ name regex, t' = t.push (freshNode M env t.counter p name regex) ∧ ∀ c, r = .ok c →
      Label.ofSegment segment = some (.param name regex) ∧ n.colonChild = some c ∧
        ∃ child, t.node? c = some child ∧ checkColonChild name regex child = true) ∨
    ∃ l, env.labelOf t.segmentPattern segment = some l ∧ l.free n = true ∧
      r = .ok t.nodes.length ∧ t' = (t.push (freshNode M env t.counter p l.name l.regex)).modify p
        (l.link t.nodes.length) := by
  rw [TrieData.newColonChild] at h
  split_ifs at h with hname
  · obtain ⟨rfl, rfl⟩ := Prod.ext_iff.mp h
    exact .inl ⟨[], regex, rfl, fun _ hc => by cases hc⟩
  · cases hcolon : n.colonChild with
    | none =>
        have hlabel : env.labelOf t.segmentPattern segment = some (.param name regex) := by
          rw [Env.labelOf, if_neg hempty, if_pos hhead, hparts]
          exact if_pos ((Bool.not_eq_false _).mp hname)
        rw [hcolon] at h
        obtain ⟨rfl, rfl⟩ := Prod.ext_iff.mp h
        exact .inr ⟨_, hlabel, by rw [Label.free, hcolon]; rfl, rfl, rfl⟩
    | some d =>
        obtain ⟨child, hchild, -⟩ := (ht.linked hn).colon d hcolon
        have hlabel : Label.ofSegment segment = some (.param name regex) := by
          rw [Label.ofSegment, if_pos hhead, hparts]
        rw [hcolon] at h
        dsimp only at h
        rw [hchild] at h
        dsimp only at h
        split_ifs at h with hsame
        · obtain ⟨rfl, rfl⟩ := Prod.ext_iff.mp h
          refine .inl ⟨name, regex, rfl, fun c hc => ?_⟩
          obtain rfl := Except.ok.inj hc
          exact ⟨hlabel, rfl, child, hchild, hsame⟩
        · obtain ⟨rfl, rfl⟩ := Prod.ext_iff.mp h
          exact .inl ⟨name, regex, rfl, fun _ hc => by cases hc⟩

/-- **What one segment does to the trie**: it leads to a literal child, it leaves a node without a
link, which may be for the parameter child that is there, or it becomes a new child. -/
theorem getOrNewNode_cases (ht : t.Ok) (hn : t.node? p = some n) {r : Except Failure ℕ}
    (h : t.getOrNewNode env p n segment = (t', r)) :
    (t' = t ∧ ∃ c, r = .ok c ∧ n.findChild (fragOf segment) = some c) ∨
    (∃ name regex, t' = t.push (freshNode M env t.counter p name regex) ∧ ∀ c, r = .ok c →
      Label.ofSegment segment = some (.param name regex) ∧ n.colonChild = some c ∧
        ∃ child, t.node? c = some child ∧ checkColonChild name regex child = true) ∨
    ∃ l, env.labelOf t.segmentPattern segment = some l ∧ l.free n = true ∧
      r = .ok t.nodes.length ∧ t' = (t.push (freshNode M env t.counter p l.name l.regex)).modify p
        (l.link t.nodes.length) := by
  rw [TrieData.getOrNewNode] at h
  cases hfind : n.findChild (fragOf segment) with
  | some d =>
      rw [hfind] at h
      obtain ⟨rfl, rfl⟩ := Prod.ext_iff.mp h
      exact .inl ⟨rfl, d, rfl, rfl⟩
  | none =>
      rw [hfind] at h
      dsimp only at h
      have hfree : (Label.literal (fragOf segment)).free n = true := by
        rw [Label.free, hfind]
        rfl
      split_ifs at h with hempty hhead hcheck
      · obtain ⟨rfl, rfl⟩ := Prod.ext_iff.mp h
        exact .inr (.inr ⟨_, by rw [Env.labelOf, if_pos hempty], hfree, rfl, rfl⟩)
      · cases hparts : colonParts (fragOf segment) with
        | error e =>
            rw [hparts] at h
            obtain ⟨rfl, rfl⟩ := Prod.ext_iff.mp h
            exact .inr (.inl ⟨[], [], rfl, fun _ hc => by cases hc⟩)
        | ok parts =>
            rw [hparts] at h
            exact .inr (newColonChild_cases ht hn hempty hhead hparts h)
      · obtain ⟨rfl, rfl⟩ := Prod.ext_iff.mp h
        exact .inr (.inl ⟨[], [], rfl, fun _ hc => by cases hc⟩)
      · have hlabel : env.labelOf t.segmentPattern segment = some (.literal (fragOf segment)) := by
          rw [Env.labelOf, if_neg hempty, if_neg hhead]
          exact if_pos ((Bool.not_eq_false _).mp hcheck)
        obtain ⟨rfl, rfl⟩ := Prod.ext_iff.mp h
        exact .inr (.inr ⟨_, hlabel, hfree, rfl, rfl⟩)

theorem Extends.refl (t : TrieData M) (p : ℕ) (l : Label) : Extends t t p l where
  old hn := ⟨_, hn, rfl, rfl, rfl⟩
  label _ _ := rfl
  link _ _ := .rfl
  fresh hnone hm := by
    rw [hnone] at hm
    cases hm

/-- **One more node**, with or without a link to it. -/
theorem extends_push {fresh : Node M} {f : Node M → Node M} (ht : t.Ok) (hn : t.node? p = some n)
    (hparent : fresh.parent = some p) (hname : fresh.name = l.name)
    (hend : fresh.endpoint = false) (hsame : ∀ m : Node M, (f m).parent = m.parent ∧
      (f m).name = m.name ∧ (f m).regex = m.regex ∧ (f m).endpoint = m.endpoint)
    (hchildren : ∃ more, (f n).children = n.children ++ more ∧
      ∀ h ∈ more, h.val = t.nodes.length)
    (hcolon : ∀ c, c ≠ t.nodes.length → ((f n).colonChild = some c ↔ n.colonChild = some c))
    (hlabel : labelBelow ((t.push fresh).modify p f) p t.nodes.length = l) :
    Extends t ((t.push fresh).modify p f) p l := by
  have hderef : ∀ {i m}, t.node? i = some m →
      ((t.push fresh).modify p f).deref i = if p = i then f m else m := fun hm =>
    deref_eq (node?_pushed hm fresh)
  obtain ⟨more, hmore, hvals⟩ := hchildren
  refine ⟨fun {i m} hm => ?_, fun {q i m} hm hq => ?_, fun {q i m} hm hq => ?_,
    fun {i m} hi hm => ?_⟩
  · obtain ⟨h₁, h₂, -, h₃⟩ := hsame m
    refine ⟨_, node?_pushed hm fresh, ?_⟩
    split_ifs
    · exact ⟨h₁, h₂, h₃⟩
    · exact ⟨rfl, rfl, rfl⟩
  · obtain ⟨-, k, hk⟩ := exists_parent ht hm hq
    have hlook : (((t.push fresh).modify p f).deref q).children.find? (fun h => h.val = i) =
        (t.deref q).children.find? fun h => h.val = i := by
      rw [hderef hk, deref_eq hk]
      split_ifs with hpq
      · obtain rfl := Option.some.inj (hn.symm.trans (hpq ▸ hk))
        have hnone : more.find? (fun h => h.val = i) = none := by
          refine List.find?_eq_none.mpr fun h hh => ?_
          have := lt_of_node? hm
          simp [hvals h hh, this.ne']
        rw [hmore, List.find?_append, hnone, Option.or_none]
      · rfl
    obtain ⟨-, h₂, h₃, -⟩ := hsame m
    rw [labelBelow, labelBelow, hlook, hderef hm, deref_eq hm]
    split_ifs
    · rw [h₂, h₃]
    · rfl
  · obtain ⟨-, k, hk⟩ := exists_parent ht hm hq
    rw [Child, Child, hderef hk, deref_eq hk]
    split_ifs with hpq
    · obtain rfl := Option.some.inj (hn.symm.trans (hpq ▸ hk))
      have hi := (lt_of_node? hm).ne
      rw [hcolon i hi, hmore, List.map_append, List.mem_append]
      refine or_congr_right (or_iff_left ?_)
      rintro hmem
      obtain ⟨h, hh, rfl⟩ := List.mem_map.mp hmem
      exact hi (hvals h hh)
    · rfl
  · rcases node?_pushed_cases hn hm with ⟨rfl, rfl⟩ | ⟨k, hk, -⟩
    · exact ⟨hparent, hlabel, hname, hend⟩
    · rw [hi] at hk
      cases hk

/-- No link leads to the next node. -/
theorem find?_next (ht : t.Ok) (hn : t.node? p = some n) :
    n.children.find? (fun h => h.val = t.nodes.length) = none := by
  refine List.find?_eq_none.mpr fun h hh => ?_
  obtain ⟨d, hd, -⟩ := (ht.linked hn).child h hh
  simpa using (lt_of_node? hd).ne

/-- **A new child** has the label that it was made for. -/
theorem labelBelow_new (ht : t.Ok) (hn : t.node? p = some n) (l : Label) :
    labelBelow ((t.push (freshNode M env t.counter p l.name l.regex)).modify p
      (l.link t.nodes.length)) p t.nodes.length = l := by
  have hp := node?_linked_old (l := l) (p := p)
    (freshNode M env t.counter p l.name l.regex) hn
  have hnew := node?_linked_new (l := l)
    (freshNode M env t.counter p l.name l.regex) hn
  rw [if_pos rfl] at hp
  rw [labelBelow, deref_eq hp, deref_eq hnew]
  cases l with
  | literal key => simp [Label.link, List.find?_append, find?_next ht hn]
  | param name regex =>
      rw [Label.link, find?_next ht hn]
      rfl

/-- A literal child that is there. -/
theorem child_of_findChild (ht : t.Ok) (hn : t.node? p = some n)
    (hfind : n.findChild (fragOf segment) = some c) (hlabel : Label.ofSegment segment = some l) :
    Child t p c ∧ l.same (labelBelow t p c) = true := by
  rw [Label.ofSegment, if_neg (head?_of_findChild ht hn hfind), Option.some.injEq] at hlabel
  rw [Node.findChild, Option.map_eq_some_iff] at hfind
  obtain ⟨e, he, rfl⟩ := hfind
  have hmem := List.mem_of_find?_eq_some he
  have hsame : sameName (fragOf segment) e.key = true := by simpa using List.find?_some he
  refine ⟨?_, ?_⟩
  · rw [Child, deref_eq hn]
    exact .inr (List.mem_map_of_mem hmem)
  · rw [(labelBelow_literal_iff ht hn).mpr hmem, ← hlabel]
    exact hsame

/-- A node **without a link** to it. -/
theorem extends_bare (ht : t.Ok) (hn : t.node? p = some n) (name regex : Text) :
    Extends t (t.push (freshNode M env t.counter p name regex)) p (.param name regex) := by
  have hid : ∀ u : TrieData M, u.modify p id = u := fun u => by
    rw [TrieData.modify, List.modify_id]
  have hp : (t.push (freshNode M env t.counter p name regex)).node? p = some n := by
    rw [node?_push, if_neg (lt_of_node? hn).ne, hn]
  have hnew : (t.push (freshNode M env t.counter p name regex)).node? t.nodes.length =
      some (freshNode M env t.counter p name regex) := by rw [node?_push, if_pos rfl]
  rw [← hid (t.push _)]
  refine extends_push ht hn rfl rfl rfl (fun _ => ⟨rfl, rfl, rfl, rfl⟩)
    ⟨[], by simp, by simp⟩ (fun _ _ => .rfl) ?_
  rw [hid, labelBelow, deref_eq hp, deref_eq hnew, find?_next ht hn]
  rfl

/-- A node **with a link** to it. -/
theorem extends_linked (ht : t.Ok) (hn : t.node? p = some n) (hfree : l.free n = true) :
    Extends t ((t.push (freshNode M env t.counter p l.name l.regex)).modify p
      (l.link t.nodes.length)) p l := by
  refine extends_push ht hn rfl rfl rfl (fun m => ?_) ?_ (fun c hc => ?_) (labelBelow_new ht hn l)
  · cases l with
    | literal key => exact ⟨rfl, rfl, rfl, rfl⟩
    | param name regex => exact ⟨rfl, rfl, rfl, rfl⟩
  · cases l with
    | literal key => exact ⟨_, rfl, by simp⟩
    | param name regex => exact ⟨[], by simp [Label.link], by simp⟩
  · cases l with
    | literal key => exact .rfl
    | param name regex =>
        rw [Label.free, Option.isNone_iff_eq_none] at hfree
        simp [Label.link, hfree, hc.symm]

/-- **One segment is one more node, or none.** Where the labels are apart, the node that it leads to
has the segment's label. -/
theorem getOrNewNode_extends (ht : t.Ok) (hn : t.node? p = some n)
    (hlabel : Label.ofSegment segment = some l)
    (hapart : ∀ {c}, Child t p c → l.same (labelBelow t p c) = true → l = labelBelow t p c)
    (h : t.getOrNewNode env p n segment = (t', .ok c)) :
    Extends t t' p l ∧ Child t' p c ∧ labelBelow t' p c = l := by
  rcases getOrNewNode_cases ht hn h with ⟨rfl, d, hd, hfind⟩ |
    ⟨name, regex, rfl, hfound⟩ | ⟨l', hl, hfree, hc, rfl⟩
  · obtain rfl := Except.ok.inj hd
    obtain ⟨hlink, hsame⟩ := child_of_findChild ht hn hfind hlabel
    exact ⟨.refl _ p l, hlink, (hapart hlink hsame).symm⟩
  · obtain ⟨hl, hcolon, child, hchild, hcheck⟩ := hfound c rfl
    obtain rfl := Option.some.inj (hl.symm.trans hlabel)
    have hlink : Child t p c := by
      rw [Child, deref_eq hn]
      exact .inl hcolon
    have hsame : (Label.param name regex).same (labelBelow t p c) = true := by
      rw [labelBelow_param ht hn hcolon, deref_eq hchild]
      exact hcheck
    have hext : Extends t (t.push (freshNode M env t.counter p name regex)) p
        (.param name regex) := extends_bare ht hn name regex
    obtain ⟨d, hd, hparent⟩ := hlink.parent ht
    refine ⟨hext, (hext.link hd hparent).mpr hlink, ?_⟩
    rw [hext.label hd hparent, ← hapart hlink hsame]
  · obtain rfl := Except.ok.inj hc
    obtain rfl : l = l' := Option.some.inj (hlabel.symm.trans (ofSegment_of_labelOf hl))
    have hp := node?_linked_old (l := l) (p := p)
      (freshNode M env t.counter p l.name l.regex) hn
    rw [if_pos rfl] at hp
    refine ⟨extends_linked ht hn hfree, ?_, labelBelow_new ht hn l⟩
    rw [Child, deref_eq hp]
    cases l with
    | literal key => exact .inr (by simp [Label.link])
    | param name regex => exact .inl rfl

theorem Extends.hasPattern (h : Extends t t' p l) (hi : HasPattern t i ls) :
    HasPattern t' i ls := by
  induction hi with
  | root => exact .root
  | child hd hparent _ ih =>
      obtain ⟨d', hd', hparent', -⟩ := h.old hd
      rw [← h.label hd hparent]
      exact .child hd' (hparent'.trans hparent) ih

theorem Extends.at (h : Extends t t' p l) (ht : t.Ok) (hi : At t i ls) : At t' i ls := by
  induction hi with
  | root => exact .root
  | child _ hlink ih =>
      obtain ⟨d, hd, hparent⟩ := hlink.parent ht
      rw [← h.label hd hparent]
      exact .child ih ((h.link hd hparent).mpr hlink)

/-- The nodes that were there keep their patterns. -/
theorem Extends.hasPattern_old (h : Extends t t' p l) (ht : t.Ok) (ht' : t'.Ok)
    (hn : t.node? i = some n) (hi : HasPattern t' i ls) : HasPattern t i ls := by
  obtain ⟨ls', hls'⟩ := exists_pattern ht hn
  rwa [hi.eq ht' (h.hasPattern hls')]

/-- The nodes that were there keep their links. -/
theorem Extends.at_old (h : Extends t t' p l) (ht' : t'.Ok) (hn : t.node? i = some n)
    (hi : At t' i ls) : At t i ls := by
  induction hi generalizing n with
  | root => exact .root
  | @child q c ls _ hlink ih =>
      obtain ⟨d, hd, hparent⟩ := hlink.parent ht'
      obtain ⟨n', hn', hsame, -⟩ := h.old hn
      obtain rfl := Option.some.inj (hd.symm.trans hn')
      have hup := hsame.symm.trans hparent
      have hold := (h.link hn hup).mp hlink
      obtain ⟨m, hm⟩ := hold.node
      rw [h.label hn hup]
      exact .child (ih hm) hold

/-- The pattern of what is new. -/
theorem Extends.pattern_fresh (h : Extends t t' p l) (ht : t.Ok) (ht' : t'.Ok) (hp : At t' p ls)
    (hnone : t.node? i = none) {ls' : List Label} (hi : HasPattern t' i ls') :
    ls' = ls ++ [l] := by
  cases hi with
  | root =>
      obtain ⟨r, hr, -⟩ := ht.root
      rw [hnone] at hr
      cases hr
  | child hd hparent hq =>
      obtain ⟨hup, hlabel, -⟩ := h.fresh hnone hd
      obtain rfl := Option.some.inj (hparent.symm.trans hup)
      rw [hq.eq ht' (hp.hasPattern ht'), hlabel]

/-- **One more segment**: the shape has one more pattern. -/
theorem Shape.extends (hs : Shape t known ends) (ht : t.Ok) (ht' : t'.Ok) (hp : At t p ls)
    (h : Extends t t' p l) (hlink : Child t' p c) (hlabel : labelBelow t' p c = l) :
    Shape t' (insert (ls ++ [l]) known) ends ∧ At t' c (ls ++ [l]) := by
  have hp' := h.at ht hp
  have hc : At t' c (ls ++ [l]) := hlabel ▸ .child hp' hlink
  refine ⟨⟨fun {i ls'} hi => ?_, fun {ls'} hls => ?_, ?_, fun {i ls'} hi => ?_,
    fun {i ls'} hi => ?_⟩, hc⟩
  · cases hn : t.node? i with
    | none => exact .inl (h.pattern_fresh ht ht' hp' hn hi)
    | some n => exact .inr (hs.pattern (h.hasPattern_old ht ht' hn hi))
  · rcases hls with rfl | hls
    · exact ⟨c, hc⟩
    · obtain ⟨i, hi⟩ := hs.present hls
      exact ⟨i, h.at ht hi⟩
  · exact hs.ends_known.trans (Set.subset_insert _ _)
  · obtain ⟨m, hm⟩ := (hi.hasPattern ht').node ht'
    cases hn : t.node? i with
    | none =>
        obtain rfl := h.pattern_fresh ht ht' hp' hn (hi.hasPattern ht')
        obtain ⟨-, -, -, hend⟩ := h.fresh hn hm
        rw [deref_eq hm, hend]
        refine iff_of_false Bool.false_ne_true fun hls => ?_
        -- an endpoint with this pattern was there
        obtain ⟨j, hj⟩ := hs.present (hs.ends_known hls)
        obtain ⟨k, hk⟩ := (hj.hasPattern ht).node ht
        rw [(h.at ht hj).eq ht' hi, hn] at hk
        cases hk
    | some n =>
        obtain ⟨n', hn', -, -, hend⟩ := h.old hn
        rw [deref_eq hn', hend, ← deref_eq hn]
        exact hs.endpoint (h.at_old ht' hn hi)
  · obtain ⟨m, hm⟩ := (hi.hasPattern ht').node ht'
    cases hn : t.node? i with
    | none =>
        obtain rfl := h.pattern_fresh ht ht' hp' hn (hi.hasPattern ht')
        obtain ⟨-, -, hname, -⟩ := h.fresh hn hm
        rw [deref_eq hm, hname, List.getLast?_concat]
        rfl
    | some n =>
        obtain ⟨n', hn', -, hname, -⟩ := h.old hn
        rw [deref_eq hn', hname, ← deref_eq hn]
        exact hs.name (h.at_old ht' hn hi)

end Step

/-! ### A pattern -/

section Insertion

variable {env : Env} {t t' : TrieData M} {n : Node M} {i p c : ℕ} {l : Label}
  {ls labs : List Label} {f : Node M → Node M} {known ends : Set (List Label)} {labels : Set Label}

/-- A write that keeps the links, the names and the constraints. -/
theorem deref_like (hf : ∀ n : Node M, n.Like (f n)) :
    ((t.modify c f).deref i).children = (t.deref i).children ∧
      ((t.modify c f).deref i).colonChild = (t.deref i).colonChild ∧
      ((t.modify c f).deref i).name = (t.deref i).name ∧
      ((t.modify c f).deref i).regex = (t.deref i).regex := by
  rw [TrieData.deref, TrieData.deref, node?_modify]
  cases t.node? i with
  | none => exact ⟨rfl, rfl, rfl, rfl⟩
  | some n =>
      rw [Option.map_some, Option.getD_some, Option.getD_some]
      split_ifs
      · exact ⟨(hf n).children, (hf n).colonChild, (hf n).name, (hf n).regex⟩
      · exact ⟨rfl, rfl, rfl, rfl⟩

theorem labelBelow_like (hf : ∀ n : Node M, n.Like (f n)) {q : ℕ} :
    labelBelow (t.modify c f) q i = labelBelow t q i := by
  obtain ⟨hchildren, -⟩ := @deref_like M t q c f hf
  obtain ⟨-, -, hname, hregex⟩ := @deref_like M t i c f hf
  rw [labelBelow, labelBelow, hchildren, hname, hregex]

theorem hasPattern_like (hf : ∀ n : Node M, n.Like (f n)) :
    HasPattern (t.modify c f) i ls ↔ HasPattern t i ls := by
  constructor
  · intro h
    induction h with
    | root => exact .root
    | child hd hparent _ ih =>
        rw [labelBelow_like hf]
        rw [node?_modify, Option.map_eq_some_iff] at hd
        obtain ⟨n, hn, rfl⟩ := hd
        refine .child hn ?_ ih
        split_ifs at hparent
        · exact (hf n).parent.symm.trans hparent
        · exact hparent
  · intro h
    induction h with
    | root => exact .root
    | @child q i d ls hd hparent _ ih =>
        rw [← labelBelow_like hf]
        refine .child (d := if c = i then f d else d) ?_ ?_ ih
        · rw [node?_modify, hd, Option.map_some]
        · split_ifs
          · exact (hf d).parent.trans hparent
          · exact hparent

theorem at_like (hf : ∀ n : Node M, n.Like (f n)) : At (t.modify c f) i ls ↔ At t i ls := by
  have hlink : ∀ {q i}, Child (t.modify c f) q i ↔ Child t q i := by
    intro q i
    obtain ⟨hchildren, hcolon, -⟩ := @deref_like M t q c f hf
    rw [Child, Child, hchildren, hcolon]
  constructor
  · intro h
    induction h with
    | root => exact .root
    | child _ hl ih =>
        rw [labelBelow_like hf]
        exact .child ih (hlink.mp hl)
  · intro h
    induction h with
    | root => exact .root
    | child _ hl ih =>
        rw [← labelBelow_like hf]
        exact .child ih (hlink.mpr hl)

/-- **A mark**: one more endpoint. -/
theorem Shape.mark (hs : Shape t known ends) (ht : t.Ok) (hc : At t c ls)
    (hf : ∀ n : Node M, n.Like (f n)) (hend : ∀ n, t.node? c = some n → (f n).endpoint = true) :
    Shape (t.modify c f) known (insert ls ends) where
  pattern hi := hs.pattern ((hasPattern_like hf).mp hi)
  present hls := by
    obtain ⟨i, hi⟩ := hs.present hls
    exact ⟨i, (at_like hf).mpr hi⟩
  ends_known := Set.insert_subset (hs.pattern (hc.hasPattern ht)) hs.ends_known
  endpoint := by
    intro i ls' hi
    have hi := (at_like hf).mp hi
    obtain ⟨n, hn⟩ := (hi.hasPattern ht).node ht
    have hn' : (t.modify c f).node? i = some (if c = i then f n else n) := by
      rw [node?_modify, hn, Option.map_some]
    rw [deref_eq hn', Set.mem_insert_iff]
    split_ifs with hci
    · subst hci
      exact iff_of_true (hend n hn) (.inl ((hi.hasPattern ht).eq ht (hc.hasPattern ht)))
    · rw [← deref_eq hn, hs.endpoint hi]
      refine (or_iff_right ?_).symm
      rintro rfl
      exact hci (hc.eq ht hi)
  name hi := by
    rw [(deref_like hf).2.2.1]
    exact hs.name ((at_like hf).mp hi)

/-- The patterns that an insertion below a node adds. -/
def grown (known : Set (List Label)) (ls labs : List Label) : Set (List Label) :=
  known ∪ {k | ∃ front, front <+: labs ∧ k = ls ++ front}

theorem grown_cons (hls : ls ∈ known) :
    grown (insert (ls ++ [l]) known) (ls ++ [l]) labs = grown known ls (l :: labs) := by
  ext k
  simp only [grown, Set.mem_union, Set.mem_insert_iff, Set.mem_ofPred_eq, List.prefix_cons_iff]
  constructor
  · rintro ((rfl | hk) | ⟨front, hfront, rfl⟩)
    · exact .inr ⟨[l], .inr ⟨[], rfl, List.nil_prefix⟩, rfl⟩
    · exact .inl hk
    · exact .inr ⟨l :: front, .inr ⟨front, rfl, hfront⟩, List.append_cons .. |>.symm⟩
  · rintro (hk | ⟨front, rfl | ⟨front', rfl, hfront⟩, rfl⟩)
    · exact .inl (.inr hk)
    · exact .inl (.inr (by rwa [List.append_nil]))
    · exact .inr ⟨front', hfront, List.append_cons ..⟩

theorem grown_one (hls : ls ∈ known) : insert (ls ++ [l]) known = grown known ls [l] := by
  rw [← grown_cons hls]
  ext k
  simp [grown]

/-- **One segment of a pattern.** -/
theorem getOrNewNode_shape {segment : Text} (hs : Shape t known ends) (ht : t.Ok)
    (hp : At t p ls) (hn : t.node? p = some n) (hapart : Apart labels)
    (hknown : ∀ ks ∈ known, ∀ k ∈ ks, k ∈ labels)
    (hsegment : ∀ k, Label.ofSegment segment = some k → k ∈ labels)
    (h : t.getOrNewNode env p n segment = (t', .ok c)) :
    ∃ l, Label.ofSegment segment = some l ∧ l ∈ labels ∧ t'.Ok ∧
      Shape t' (insert (ls ++ [l]) known) ends ∧ At t' c (ls ++ [l]) := by
  have hins : t.Inserts (t.getOrNewNode env p n segment) _ := getOrNewNode_inserts ht hn segment
  obtain ⟨l, hl⟩ : ∃ l, Label.ofSegment segment = some l := by
    rcases getOrNewNode_cases ht hn h with ⟨-, d, -, hfind⟩ |
      ⟨name, regex, -, hfound⟩ | ⟨l, hl, -⟩
    · exact ⟨_, by rw [Label.ofSegment, if_neg (head?_of_findChild ht hn hfind)]⟩
    · exact ⟨_, (hfound c rfl).1⟩
    · exact ⟨_, ofSegment_of_labelOf hl⟩
  have hmem := hsegment l hl
  have hok : t'.Ok := by
    have := hins.ok
    rwa [h] at this
  -- the labels of the children are labels of patterns
  obtain ⟨hext, hlink, hlabel⟩ := getOrNewNode_extends ht hn hl (fun {d} hlink hsame =>
    hapart l hmem _ (hknown _ (hs.pattern ((At.child hp hlink).hasPattern ht)) _
      (List.mem_append_right _ (List.mem_singleton_self _))) hsame) h
  exact ⟨l, hl, hmem, hok, hs.extends ht hok hp hext hlink hlabel⟩

/-- **The segments of a pattern**: all its prefixes are known, and it is the pattern of an
endpoint. -/
theorem insertNode_shape {frag : Text} {frags : List Text} (hs : Shape t known ends) (ht : t.Ok)
    (hp : At t p ls) (hapart : Apart labels) (hknown : ∀ ks ∈ known, ∀ k ∈ ks, k ∈ labels)
    (hsegments : ∀ s ∈ frag :: frags, ∀ k, Label.ofSegment s = some k → k ∈ labels)
    (h : t.insertNode env p frag frags = (t', .ok c)) :
    t'.Ok ∧ Shape t' (grown known ls ((frag :: frags).filterMap Label.ofSegment))
      (insert (ls ++ (frag :: frags).filterMap Label.ofSegment) ends) ∧
        At t' c (ls ++ (frag :: frags).filterMap Label.ofSegment) := by
  obtain ⟨n, hn⟩ := (hp.hasPattern ht).node ht
  have hls : ls ∈ known := hs.pattern (hp.hasPattern ht)
  induction frags generalizing t p n frag known ls with
  | nil =>
      rw [TrieData.insertNode, hn] at h
      dsimp only at h
      split at h
      · cases (Prod.ext_iff.mp h).2
      · rename_i u d hu
        obtain ⟨rfl, ⟨⟩⟩ := Prod.ext_iff.mp h
        obtain ⟨l, hl, -, hok, hshape, hat⟩ := getOrNewNode_shape hs ht hp hn hapart hknown
          (hsegments frag (by simp)) hu
        rw [List.filterMap_cons_some hl, List.filterMap_nil, ← grown_one hls]
        exact ⟨modify_ok hok endpoint_grows fun n => ⟨rfl, rfl, rfl⟩,
          hshape.mark hok hat mark_like fun _ _ => rfl, (at_like mark_like).mpr hat⟩
  | cons next frags ih =>
      rw [TrieData.insertNode, hn] at h
      dsimp only at h
      split at h
      · cases (Prod.ext_iff.mp h).2
      · rename_i u d hu
        obtain ⟨l, hl, hmem, hok, hshape, hat⟩ := getOrNewNode_shape hs ht hp hn hapart hknown
          (hsegments frag (by simp)) hu
        obtain ⟨m, hm⟩ := (hat.hasPattern hok).node hok
        have hgrown : ∀ ks ∈ insert (ls ++ [l]) known, ∀ k ∈ ks, k ∈ labels := by
          intro ks hks k hk
          rcases hks with rfl | hks
          · rcases List.mem_append.mp hk with hk | hk
            · exact hknown ls hls k hk
            · rw [List.mem_singleton] at hk
              rwa [hk]
          · exact hknown ks hks k hk
        have hrest := ih hshape hok hat hgrown
          (fun s hs => hsegments s (List.mem_cons_of_mem _ hs)) h m hm (Set.mem_insert _ _)
        rw [grown_cons hls, List.append_assoc, List.singleton_append] at hrest
        rwa [List.filterMap_cons_some hl]

/-- The patterns of the nodes: the prefixes of the patterns that were added. -/
def knownOf (ps : List Text) : Set (List Label) :=
  {ls | ls = [] ∨ ∃ p ∈ ps, ls <+: normal p}

/-- The patterns of the endpoints. -/
def endsOf (ps : List Text) : Set (List Label) := {ls | ∃ p ∈ ps, ls = normal p}

/-- The labels of the patterns. -/
def labelsOf (ps : List Text) : Set Label :=
  {l | ∃ p ∈ ps, ∃ s ∈ segmentsOf p, Label.ofSegment s = some l}

theorem mem_labelsOf {ps : List Text} (hls : ls ∈ knownOf ps) (hl : l ∈ ls) :
    l ∈ labelsOf ps := by
  rcases hls with rfl | ⟨p, hp, hprefix⟩
  · cases hl
  · obtain ⟨s, hs, heq⟩ := List.mem_filterMap.mp (List.IsPrefix.subset hprefix hl)
    exact ⟨p, hp, s, hs, heq⟩

theorem labelsOf_append {ps qs : List Text} (hl : l ∈ labelsOf ps) : l ∈ labelsOf (ps ++ qs) := by
  obtain ⟨p, hp, hl⟩ := hl
  exact ⟨p, List.mem_append_left _ hp, hl⟩

theorem knownOf_snoc (ps : List Text) (p : Text) :
    knownOf (ps ++ [p]) = grown (knownOf ps) [] (normal p) := by
  ext ls
  simp only [knownOf, grown, Set.mem_union, Set.mem_ofPred_eq, List.mem_append,
    List.mem_singleton, List.nil_append]
  constructor
  · rintro (rfl | ⟨q, hq | rfl, hprefix⟩)
    · exact .inl (.inl rfl)
    · exact .inl (.inr ⟨q, hq, hprefix⟩)
    · exact .inr ⟨ls, hprefix, rfl⟩
  · rintro ((rfl | ⟨q, hq, hprefix⟩) | ⟨front, hprefix, rfl⟩)
    · exact .inl rfl
    · exact .inr ⟨q, .inl hq, hprefix⟩
    · exact .inr ⟨p, .inr rfl, hprefix⟩

theorem endsOf_snoc (ps : List Text) (p : Text) :
    endsOf (ps ++ [p]) = insert (normal p) (endsOf ps) := by
  ext ls
  simp only [endsOf, Set.mem_insert_iff, Set.mem_ofPred_eq, List.mem_append, List.mem_singleton]
  constructor
  · rintro ⟨q, hq | rfl, rfl⟩
    · exact .inr ⟨q, hq, rfl⟩
    · exact .inl rfl
  · rintro (rfl | ⟨q, hq, rfl⟩)
    · exact ⟨p, .inr rfl, rfl⟩
    · exact ⟨q, .inl hq, rfl⟩

/-- **One more pattern.** -/
theorem addNode_shape {ps : List Text} {pattern : Text}
    (hs : Shape t (knownOf ps) (endsOf ps)) (ht : t.Ok)
    (hapart : Apart (labelsOf (ps ++ [pattern])))
    (h : t.addNode env pattern = (t', .ok c)) :
    t'.Ok ∧ Shape t' (knownOf (ps ++ [pattern])) (endsOf (ps ++ [pattern])) := by
  rw [TrieData.addNode] at h
  split_ifs at h with hslashes
  · cases (Prod.ext_iff.mp h).2
  cases hsplit : stringSplit slash (trimPrefixSlash (trimPathSpaces pattern)) with
  | nil => exact absurd hsplit (stringSplit_ne_nil _ _)
  | cons frag frags =>
      have hsegments : segmentsOf pattern = frag :: frags := hsplit
      rw [hsplit] at h
      dsimp only at h
      split at h
      · cases (Prod.ext_iff.mp h).2
      · rename_i u d hu
        obtain ⟨rfl, ⟨⟩⟩ := Prod.ext_iff.mp h
        obtain ⟨hok, hshape, hat⟩ := insertNode_shape hs ht .root hapart
          (fun ks hks k hk => labelsOf_append (mem_labelsOf hks hk))
          (fun s hs k hk => ⟨pattern, by simp, s, hsegments ▸ hs, hk⟩) hu
        rw [← hsegments, List.nil_append] at hshape hat
        have hlike : ∀ n : Node M, n.Like
            (if n.pattern = [] then { n with pattern := trimPathSpaces pattern } else n) := by
          intro n
          split_ifs
          · exact ⟨rfl, rfl, rfl, rfl, rfl, rfl, rfl⟩
          · exact .refl n
        have hmark := hshape.mark hok hat hlike fun n hn => by
          have hend := (hshape.endpoint hat).mpr (Set.mem_insert _ _)
          rw [deref_eq hn] at hend
          split_ifs <;> exact hend
        rw [Set.insert_eq_of_mem (Set.mem_insert _ _)] at hmark
        refine ⟨modify_ok hok (pattern_grows _) fun n => ?_, ?_⟩
        · split_ifs <;> exact ⟨rfl, rfl, rfl⟩
        · rwa [knownOf_snoc, endsOf_snoc]

/-- **The shape is made by the set of the patterns.** -/
theorem addAll_shape {ps qs : List Text} (hs : Shape t (knownOf ps) (endsOf ps)) (ht : t.Ok)
    (hapart : Apart (labelsOf (ps ++ qs))) (h : t.addAll env qs = some t') :
    t'.Ok ∧ Shape t' (knownOf (ps ++ qs)) (endsOf (ps ++ qs)) := by
  induction qs generalizing t ps with
  | nil =>
      obtain rfl := Option.some.inj h
      rw [List.append_nil]
      exact ⟨ht, hs⟩
  | cons q qs ih =>
      rw [TrieData.addAll] at h
      split at h
      · rename_i u c hu
        rw [List.append_cons] at hapart ⊢
        have hq : Apart (labelsOf (ps ++ [q])) := fun l hl l' hl' =>
          hapart l (labelsOf_append hl) l' (labelsOf_append hl')
        obtain ⟨hok, hshape⟩ := addNode_shape hs ht hq hu
        exact ih hshape hok hapart h
      · cases h

/-- The shape of a trie without patterns. -/
theorem new_shape (env : Env) (strictRoute : Bool) (segmentPattern : Text)
    (maxFallbackDepth : ℤ) :
    Shape (M := M) (.new env strictRoute segmentPattern maxFallbackDepth) (knownOf [])
      (endsOf []) := by
  set t : TrieData M := .new env strictRoute segmentPattern maxFallbackDepth
  have hnode : ∀ {i n}, t.node? i = some n → i = 0 ∧ n.parent = none := by
    intro i n hn
    cases i with
    | zero =>
        obtain rfl := Option.some.inj hn
        exact ⟨rfl, rfl⟩
    | succ i => cases hn
  have hpattern : ∀ {i ls}, HasPattern t i ls → i = 0 ∧ ls = [] := by
    intro i ls h
    cases h with
    | root => exact ⟨rfl, rfl⟩
    | child hd hparent =>
        rw [(hnode hd).2] at hparent
        cases hparent
  have hat : ∀ {i ls}, At t i ls → i = 0 ∧ ls = [] := fun h =>
    hpattern (h.hasPattern (new_ok env strictRoute segmentPattern maxFallbackDepth))
  refine ⟨fun h => .inl (hpattern h).2, fun {ls} hls => ?_, ?_, fun {i ls} h => ?_,
    fun {i ls} h => ?_⟩
  · rcases hls with rfl | ⟨p, hp, -⟩
    · exact ⟨0, .root⟩
    · cases hp
  · rintro ls ⟨p, hp, -⟩
    cases hp
  · obtain ⟨rfl, rfl⟩ := hat h
    refine iff_of_false Bool.false_ne_true ?_
    rintro ⟨p, hp, -⟩
    cases hp
  · obtain ⟨rfl, rfl⟩ := hat h
    rfl

end Insertion

end ArchNet.Routing
