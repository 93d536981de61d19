import ArchNet.TrieMatch

/-!
# What an Insertion Adds

An insertion follows the segments of its pattern as far as the trie goes. Behind the node where
the pattern leaves it, every segment becomes a new node, up to the first segment that is refused:
a spur, of nodes with one link each.

## Conventions

What decides about the nodes that are made is known before the insertion: the node where the
pattern leaves the trie (`departs`) and the labels of the segments behind it (`sprout`).

## Main definitions

* `Label`: what a segment of a pattern becomes, with the segments of a path that it accepts.
* `departs`, `sprout`: where a pattern leaves a trie, and the labels of the nodes that it makes.
* `Spur`, `Graft`: the new nodes, and all that an insertion changes.

## Main results

* `getOrNewNode_taken`: what one segment can do.
* `addNode_graft`: **an insertion adds a spur and marks an endpoint, and changes nothing else**.
-/

open Bytes

namespace ArchNet.Routing

variable {M : Type}

/-- What a segment of a pattern becomes: the key of a literal child, or the name and the constraint
of a parameter child. -/
inductive Label
  | literal (key : Text)
  | param (name regex : Text)
  deriving Repr, DecidableEq

namespace Label

/-- The name of the node. -/
def name : Label → Text
  | literal _ => []
  | param name _ => name

/-- The constraint of the node. -/
def regex : Label → Text
  | literal _ => []
  | param _ regex => regex

/-- The node is a parameter child. -/
def isParam : Label → Bool
  | literal _ => false
  | param _ _ => true

/-- The segments of a path that lead to the node. -/
def accepts (env : Env) : Label → Text → Bool
  | literal key, s => sameName s key
  | param _ regex, s => regex = [] || env.isStrMatchRegex s regex

/-- The place for the link is free. -/
def free (n : Node M) : Label → Bool
  | literal key => (n.findChild key).isNone
  | param _ _ => n.colonChild.isNone

/-- The link to the node. -/
def link (c : ℕ) (n : Node M) : Label → Node M
  | literal key => { n with children := n.children ++ [⟨key, c⟩] }
  | param _ _ => { n with colonChild := some c }

end Label

/-- The label of a segment, where `add_node` does not refuse it. -/
def Env.labelOf (env : Env) (segmentPattern segment : Text) : Option Label :=
  let frag := fragOf segment
  if frag = [] then some (.literal frag)
  else if frag.head? = some 58 then
    match colonParts frag with
    | .error _ => none
    | .ok (name, regex) =>
        if env.regexMatch name segmentPattern then some (.param name regex) else none
  else if env.regexMatch frag segmentPattern then some (.literal frag) else none

/-- The labels of the segments, up to the first one that is refused. -/
def Env.labels (env : Env) (segmentPattern : Text) : List Text → List Label
  | [] => []
  | f :: fs =>
      match env.labelOf segmentPattern f with
      | none => []
      | some l => l :: env.labels segmentPattern fs

/-- The child that a segment of a pattern stands for. -/
def TrieData.leadsTo (env : Env) (t : TrieData M) (p : ℕ) (segment : Text) : Option ℕ :=
  match (t.deref p).findChild (fragOf segment) with
  | some c => some c
  | none =>
      match env.labelOf t.segmentPattern segment with
      | some (.param name regex) =>
          (t.deref p).colonChild.filter fun c => checkColonChild name regex (t.deref c)
      | _ => none

/-- **Where a pattern leaves the trie**, and its segments behind that node. -/
def TrieData.departs (env : Env) (t : TrieData M) : ℕ → List Text → ℕ × List Text
  | p, [] => (p, [])
  | p, f :: fs =>
      match t.leadsTo env p f with
      | some c => t.departs env c fs
      | none => (p, f :: fs)

/-- The labels of the nodes that are made below a node. A parameter of another name or constraint
keeps a parameter child away. -/
def TrieData.sprout (env : Env) (t : TrieData M) (q : ℕ) (fs : List Text) : List Label :=
  match env.labels t.segmentPattern fs with
  | [] => []
  | l :: ls => if l.free (t.deref q) then l :: ls else []

/-- **What an insertion makes of a pattern**: the node where the pattern leaves the trie, and the
labels of the nodes that are made below it. -/
def TrieData.growth (env : Env) (t : TrieData M) (pattern : Text) : ℕ × List Label :=
  if ascii "//" <:+: trimPathSpaces pattern then (0, [])
  else
    let (q, fs) := t.departs env 0 (segmentsOf pattern)
    (q, t.sprout env q fs)

/-- **A node stays as it is**, but for its mark as an endpoint and the text of its pattern. -/
structure Node.Like (n n' : Node M) : Prop where
  children : n'.children = n.children
  colonChild : n'.colonChild = n.colonChild
  name : n'.name = n.name
  regex : n'.regex = n.regex
  parent : n'.parent = n.parent
  handlers : n'.handlers = n.handlers
  middlewares : n'.middlewares = n.middlewares

/-- **A spur**: from the node on, one link after the other with these labels. The node that is
marked is the last one. -/
def Spur (t : TrieData M) (marked : Option ℕ) : ℕ → List Label → Prop
  | p, [] => (∃ n, t.node? p = some n ∧ n.children = [] ∧ n.colonChild = none) ∧
      ∀ e, marked = some e → e = p
  | p, l :: ls => ∃ n c d, t.node? p = some n ∧
      n.children = (l.link c ({ id := [] } : Node M)).children ∧
      n.colonChild = (l.link c ({ id := [] } : Node M)).colonChild ∧
      t.node? c = some d ∧ d.name = l.name ∧ d.regex = l.regex ∧ Spur t marked c ls

/-- **What an insertion changes**: a spur with these labels grows at the node, and a node is
marked. -/
structure Graft (t t' : TrieData M) (q : ℕ) (labels : List Label) (marked : Option ℕ) : Prop where
  old : ∀ {i n}, t.node? i = some n → i ≠ q ∨ labels = [] →
    ∃ n', t'.node? i = some n' ∧ n.Like n'
  sprout : ∀ l ls, labels = l :: ls → ∃ n n' c d, t.node? q = some n ∧ l.free n = true ∧
    t'.node? q = some n' ∧ (l.link c n).Like n' ∧ t.nodes.length ≤ c ∧
    t'.node? c = some d ∧ d.name = l.name ∧ d.regex = l.regex ∧ Spur t' marked c ls
  endpoint : ∀ {i n'}, t'.node? i = some n' → n'.endpoint = true →
    marked = some i ∨ ∃ n, t.node? i = some n ∧ n.endpoint = true
  handlers : ∀ {i n'}, t'.node? i = some n' →
    n'.handlers = [] ∨ ∃ n, t.node? i = some n ∧ n'.handlers = n.handlers
  stay : labels = [] → ∀ e, marked = some e → e = q

/-- The nodes that were there are there, as they were. -/
structure Kept (t t' : TrieData M) : Prop where
  segmentPattern : t'.segmentPattern = t.segmentPattern
  node : ∀ {i n}, t.node? i = some n → t'.node? i = some n
  endpoint : ∀ {i n'}, t'.node? i = some n' → n'.endpoint = true → t.node? i = some n'
  handlers : ∀ {i n'}, t'.node? i = some n' → n'.handlers = [] ∨ t.node? i = some n'

/-- **What one segment can do**: it leads to a child, it is refused, or it becomes a new node. -/
inductive Taken (env : Env) (t : TrieData M) (p : ℕ) (n : Node M) (segment : Text) :
    TrieData M × Except Failure ℕ → Prop
  | found {t' : TrieData M} {c : ℕ} (hlead : t.leadsTo env p segment = some c) (hkept : Kept t t') :
      Taken env t p n segment (t', .ok c)
  | refused {t' : TrieData M} {e : Failure} (hlead : t.leadsTo env p segment = none)
      (hbar : ∀ l, env.labelOf t.segmentPattern segment = some l → l.free n = false)
      (hkept : Kept t t') : Taken env t p n segment (t', .error e)
  | grown {t' : TrieData M} {l : Label} (fresh : Node M) (hlead : t.leadsTo env p segment = none)
      (hlabel : env.labelOf t.segmentPattern segment = some l) (hfree : l.free n = true)
      (hchildren : fresh.children = []) (hcolon : fresh.colonChild = none)
      (hname : fresh.name = l.name) (hregex : fresh.regex = l.regex)
      (hend : fresh.endpoint = false) (hhandlers : fresh.handlers = [])
      (ht' : t' = (t.push fresh).modify p (l.link t.nodes.length)) :
      Taken env t p n segment (t', .ok t.nodes.length)

section Taken

variable {env : Env} {t t' t'' : TrieData M} {n n' : Node M} {p c : ℕ} {segment : Text}

theorem Node.Like.refl (n : Node M) : n.Like n := ⟨rfl, rfl, rfl, rfl, rfl, rfl, rfl⟩

theorem Node.Like.trans {n₁ n₂ n₃ : Node M} (h : n₁.Like n₂) (h' : n₂.Like n₃) : n₁.Like n₃ :=
  ⟨h'.children.trans h.children, h'.colonChild.trans h.colonChild, h'.name.trans h.name,
    h'.regex.trans h.regex, h'.parent.trans h.parent, h'.handlers.trans h.handlers,
    h'.middlewares.trans h.middlewares⟩

theorem Kept.refl (t : TrieData M) : Kept t t := ⟨rfl, fun h => h, fun h _ => h, fun h => .inr h⟩

/-- A node that nothing leads to. -/
theorem kept_push (hend : n.endpoint = false) (hhandlers : n.handlers = []) :
    Kept t (t.push n) where
  segmentPattern := rfl
  node := by
    intro i m hm
    rw [node?_push, if_neg (lt_of_node? hm).ne, hm]
  endpoint := by
    intro i m hm hm'
    rw [node?_push] at hm
    split_ifs at hm with hi
    · obtain rfl := Option.some.inj hm
      rw [hend] at hm'
      cases hm'
    · exact hm
  handlers := by
    intro i m hm
    rw [node?_push] at hm
    split_ifs at hm with hi
    · obtain rfl := Option.some.inj hm
      exact .inl hhandlers
    · exact .inr hm

/-- A parameter segment. -/
theorem newColonChild_taken (h : t.Ok) (hn : t.node? p = some n) {segment name regex : Text}
    (hfind : n.findChild (fragOf segment) = none) (hempty : fragOf segment ≠ [])
    (hhead : (fragOf segment).head? = some 58)
    (hparts : colonParts (fragOf segment) = .ok (name, regex)) :
    Taken env t p n segment
      (t.newColonChild env p n (freshNode M env t.counter p [] []) name regex) := by
  have hderef := deref_eq hn
  rw [TrieData.newColonChild]
  split_ifs with hcheck
  · have hlabel : env.labelOf t.segmentPattern segment = none := by
      rw [Env.labelOf, if_neg hempty, if_pos hhead, hparts]
      exact if_neg (Bool.eq_false_iff.mp hcheck)
    refine .refused ?_ (by simp [hlabel]) (kept_push rfl rfl)
    rw [TrieData.leadsTo, hderef, hfind, hlabel]
  · have hlabel : env.labelOf t.segmentPattern segment = some (.param name regex) := by
      rw [Env.labelOf, if_neg hempty, if_pos hhead, hparts]
      exact if_pos ((Bool.not_eq_false _).mp hcheck)
    have hlead : t.leadsTo env p segment =
        n.colonChild.filter fun c => checkColonChild name regex (t.deref c) := by
      rw [TrieData.leadsTo, hderef, hfind, hlabel]
    dsimp only
    cases hcolon : n.colonChild with
    | none =>
        rw [hcolon] at hlead
        exact .grown (freshNode M env t.counter p name regex) hlead hlabel
          (by simp [Label.free, hcolon]) rfl rfl rfl rfl rfl rfl rfl
    | some c =>
        obtain ⟨child, hchild, -⟩ := (h.linked hn).colon c hcolon
        rw [hcolon, Option.filter_some, deref_eq hchild] at hlead
        dsimp only
        rw [hchild]
        dsimp only
        split_ifs with hsame
        · exact .found (by rw [hlead, if_pos hsame]) (kept_push rfl rfl)
        · refine .refused (by rw [hlead, if_neg hsame]) (fun l hl => ?_) (kept_push rfl rfl)
          obtain rfl := Option.some.inj (hlabel.symm.trans hl)
          rw [Label.free, hcolon]
          rfl

/-- **One segment**, in full. -/
theorem getOrNewNode_taken (h : t.Ok) (hn : t.node? p = some n) (segment : Text) :
    Taken env t p n segment (t.getOrNewNode env p n segment) := by
  have hderef := deref_eq hn
  rw [TrieData.getOrNewNode]
  cases hfind : n.findChild (fragOf segment) with
  | some c => exact .found (by rw [TrieData.leadsTo, hderef, hfind]) (.refl t)
  | none =>
      have hlead : ∀ l, env.labelOf t.segmentPattern segment = l →
          (∀ name regex, l ≠ some (.param name regex)) → t.leadsTo env p segment = none := by
        intro l hl hliteral
        rw [TrieData.leadsTo, hderef, hfind, hl]
        cases l with
        | none => rfl
        | some l =>
            cases l with
            | literal key => rfl
            | param name regex => exact absurd rfl (hliteral name regex)
      have hfree : (Label.literal (fragOf segment)).free n = true := by
        rw [Label.free, hfind]
        rfl
      dsimp only
      split_ifs with hempty hhead hcheck
      · have hlabel : env.labelOf t.segmentPattern segment = some (.literal (fragOf segment)) := by
          rw [Env.labelOf, if_pos hempty]
        exact .grown (freshNode M env t.counter p [] []) (hlead _ hlabel (by simp)) hlabel hfree
          rfl rfl rfl rfl rfl rfl rfl
      · cases hparts : colonParts (fragOf segment) with
        | error e =>
            have hlabel : env.labelOf t.segmentPattern segment = none := by
              rw [Env.labelOf, if_neg hempty, if_pos hhead, hparts]
            exact .refused (hlead _ hlabel (by simp)) (by simp [hlabel]) (kept_push rfl rfl)
        | ok parts => exact newColonChild_taken h hn hfind hempty hhead hparts
      · have hlabel : env.labelOf t.segmentPattern segment = none := by
          rw [Env.labelOf, if_neg hempty, if_neg hhead]
          exact if_neg (Bool.eq_false_iff.mp hcheck)
        exact .refused (hlead _ hlabel (by simp)) (by simp [hlabel])
          (kept_push rfl rfl)
      · have hlabel : env.labelOf t.segmentPattern segment = some (.literal (fragOf segment)) := by
          rw [Env.labelOf, if_neg hempty, if_neg hhead]
          exact if_pos ((Bool.not_eq_false _).mp hcheck)
        exact .grown (freshNode M env t.counter p [] []) (hlead _ hlabel (by simp)) hlabel hfree
          rfl rfl rfl rfl rfl rfl rfl

end Taken

/-! ### Along the segments -/

section Grafted

variable {env : Env} {t t' t'' : TrieData M} {n fresh : Node M} {p q c : ℕ} {l : Label}
  {labels : List Label} {marked : Option ℕ} {segment : Text} {fs : List Text}

/-- A segment leads to a child. -/
theorem leadsTo_child (h : t.Ok) (hn : t.node? p = some n)
    (hlead : t.leadsTo env p segment = some c) : ∃ d, t.node? c = some d ∧ d.parent = some p := by
  rw [TrieData.leadsTo, deref_eq hn] at hlead
  cases hfind : n.findChild (fragOf segment) with
  | some e =>
      rw [hfind] at hlead
      obtain rfl := Option.some.inj hlead
      exact h.findChild hn hfind
  | none =>
      rw [hfind] at hlead
      dsimp only at hlead
      split at hlead
      · obtain ⟨hcolon, -⟩ := Option.filter_eq_some_iff.mp hlead
        exact (h.linked hn).colon c hcolon
      · cases hlead

/-- A node that is kept is the same. -/
theorem Kept.deref (h : Kept t t') (hn : t.node? p = some n) : t'.deref p = t.deref p := by
  rw [deref_eq hn, deref_eq (h.node hn)]

/-- A segment leads where it led before. -/
theorem Kept.leadsTo (h : Kept t t') (ht : t.Ok) (hn : t.node? p = some n) :
    t'.leadsTo env p segment = t.leadsTo env p segment := by
  rw [TrieData.leadsTo, TrieData.leadsTo, h.deref hn, h.segmentPattern]
  cases (t.deref p).findChild (fragOf segment) with
  | some c => rfl
  | none =>
      dsimp only
      cases env.labelOf t.segmentPattern segment with
      | none => rfl
      | some l =>
          cases l with
          | literal key => rfl
          | param name regex =>
              dsimp only
              rw [deref_eq hn]
              cases hcolon : n.colonChild with
              | none => rfl
              | some c =>
                  obtain ⟨d, hd, -⟩ := (ht.linked hn).colon c hcolon
                  rw [Option.filter_some, Option.filter_some, h.deref hd]

/-- Segments depart at a node. -/
theorem departs_node (h : t.Ok) (hn : t.node? p = some n) :
    ∃ m, t.node? (t.departs env p fs).1 = some m := by
  induction fs generalizing p n with
  | nil => exact ⟨n, hn⟩
  | cons f fs ih =>
      rw [TrieData.departs]
      cases hlead : t.leadsTo env p f with
      | none => exact ⟨n, hn⟩
      | some c =>
          obtain ⟨d, hd, -⟩ := leadsTo_child h hn hlead
          exact ih hd

/-- They depart where they departed before. -/
theorem Kept.departs (h : Kept t t') (ht : t.Ok) (hn : t.node? p = some n) :
    t'.departs env p fs = t.departs env p fs := by
  induction fs generalizing p n with
  | nil => rfl
  | cons f fs ih =>
      rw [TrieData.departs, TrieData.departs, h.leadsTo ht hn]
      cases hlead : t.leadsTo env p f with
      | none => rfl
      | some c =>
          obtain ⟨d, hd, -⟩ := leadsTo_child ht hn hlead
          exact ih hd

/-- What sprouts there is the same. -/
theorem Kept.sprout (h : Kept t t') (hn : t.node? q = some n) :
    t'.sprout env q fs = t.sprout env q fs := by
  rw [TrieData.sprout, TrieData.sprout, h.segmentPattern, h.deref hn]

/-- No node is lost. -/
theorem Kept.length_le (h : Kept t t') : t.nodes.length ≤ t'.nodes.length := by
  cases hlen : t.nodes.length with
  | zero => exact Nat.zero_le _
  | succ k =>
      have hk : t.node? k = some t.nodes[k] := List.getElem?_eq_getElem (by omega)
      have := lt_of_node? (h.node hk)
      omega

/-- A node without links leads nowhere, and every place is free. -/
theorem departs_bare (hn : t.node? p = some n) (hchildren : n.children = [])
    (hcolon : n.colonChild = none) : t.departs env p fs = (p, fs) := by
  cases fs with
  | nil => rfl
  | cons f fs =>
      have hlead : t.leadsTo env p f = none := by
        rw [TrieData.leadsTo, deref_eq hn, Node.findChild, hchildren, hcolon]
        dsimp only [List.find?_nil, Option.map_none]
        split <;> rfl
      rw [TrieData.departs, hlead]

/-- At a node without children every label sprouts. -/
theorem sprout_bare (hn : t.node? p = some n) (hchildren : n.children = [])
    (hcolon : n.colonChild = none) : t.sprout env p fs = env.labels t.segmentPattern fs := by
  have hfree : ∀ l : Label, l.free n = true := by
    intro l
    cases l with
    | literal key =>
        rw [Label.free, Node.findChild, hchildren]
        rfl
    | param name regex =>
        rw [Label.free, hcolon]
        rfl
  rw [TrieData.sprout, deref_eq hn]
  cases env.labels t.segmentPattern fs with
  | nil => rfl
  | cons l ls => exact if_pos (hfree l)

/-- Nothing grows where everything is kept. -/
theorem Kept.graft (h : Kept t t') (q : ℕ) : Graft t t' q [] none where
  old hn _ := ⟨_, h.node hn, .refl _⟩
  sprout := by simp
  endpoint hn hend := .inr ⟨_, h.endpoint hn hend, hend⟩
  handlers hn := (h.handlers hn).imp_right fun hold => ⟨_, hold, rfl⟩
  stay := nofun

/-- What grows where everything has been kept. -/
theorem Graft.of_kept (h : Graft t' t'' q labels marked) (hkept : Kept t t')
    (hn : t.node? q = some n) : Graft t t'' q labels marked where
  old hm hq := h.old (hkept.node hm) hq
  sprout l ls hls := by
    obtain ⟨m, n', c, d, hm, hfree, hn', hlike, hle, hspur⟩ := h.sprout l ls hls
    obtain rfl := Option.some.inj ((hkept.node hn).symm.trans hm)
    exact ⟨n, n', c, d, hn, hfree, hn', hlike, hkept.length_le.trans hle, hspur⟩
  endpoint hn' hend := by
    refine (h.endpoint hn' hend).imp_right ?_
    rintro ⟨m, hm, hmend⟩
    exact ⟨m, hkept.endpoint hm hmend, hmend⟩
  handlers hn' := by
    rcases h.handlers hn' with hnil | ⟨m, hm, heq⟩
    · exact .inl hnil
    · rcases hkept.handlers hm with hnil | hold
      · exact .inl (heq.trans hnil)
      · exact .inr ⟨m, hold, heq⟩
  stay := h.stay

/-- A spur stays. -/
theorem Spur.like (h : Spur t marked p labels)
    (hlike : ∀ {i n}, t.node? i = some n → ∃ n', t'.node? i = some n' ∧ n.Like n') :
    Spur t' marked p labels := by
  induction labels generalizing p with
  | nil =>
      obtain ⟨⟨n, hn, hchildren, hcolon⟩, hend⟩ := h
      obtain ⟨n', hn', hl⟩ := hlike hn
      exact ⟨⟨n', hn', hl.children.trans hchildren, hl.colonChild.trans hcolon⟩, hend⟩
  | cons l ls ih =>
      obtain ⟨n, c, d, hn, hchildren, hcolon, hd, hname, hregex, hrest⟩ := h
      obtain ⟨n', hn', hl⟩ := hlike hn
      obtain ⟨d', hd', hl'⟩ := hlike hd
      exact ⟨n', c, d', hn', hl.children.trans hchildren, hl.colonChild.trans hcolon, hd',
        hl'.name.trans hname, hl'.regex.trans hregex, ih hrest⟩

/-- Marking a node changes no link: the one that is marked already, or the one where nothing has
grown. -/
theorem Graft.mark (h : Graft t t' q labels marked) {f : Node M → Node M}
    (hf : ∀ n : Node M, n.Like (f n))
    (hmarked : marked = none ∧ labels = [] ∧ c = q ∨ marked = some c) :
    Graft t (t'.modify c f) q labels (some c) := by
  have hlike : ∀ {i n}, t'.node? i = some n → ∃ n', (t'.modify c f).node? i = some n' ∧
      n.Like n' := by
    intro i n hn
    rw [node?_modify, hn, Option.map_some]
    refine ⟨_, rfl, ?_⟩
    split_ifs
    · exact hf n
    · exact .refl n
  refine ⟨?_, ?_, ?_, ?_, ?_⟩
  · intro i n hn hq
    obtain ⟨n', hn', hl⟩ := h.old hn hq
    obtain ⟨n'', hn'', hl'⟩ := hlike hn'
    exact ⟨n'', hn'', hl.trans hl'⟩
  · intro l ls hls
    obtain rfl : marked = some c :=
      hmarked.resolve_left fun hnew => List.cons_ne_nil l ls (hls.symm.trans hnew.2.1)
    obtain ⟨n, n', d, e, hn, hfree, hn', hl, hle, he, hname, hregex, hspur⟩ := h.sprout l ls hls
    obtain ⟨n'', hn'', hl'⟩ := hlike hn'
    obtain ⟨e', he', hl''⟩ := hlike he
    exact ⟨n, n'', d, e', hn, hfree, hn'', hl.trans hl', hle, he', hl''.name.trans hname,
      hl''.regex.trans hregex, hspur.like hlike⟩
  · intro i n' hn' hend
    rw [node?_modify, Option.map_eq_some_iff] at hn'
    obtain ⟨m, hm, rfl⟩ := hn'
    by_cases hi : c = i
    · exact .inl (by rw [hi])
    · rw [if_neg hi] at hend
      rcases h.endpoint hm hend with hmark | hold
      · rcases hmarked with ⟨hnone, -⟩ | hsome
        · rw [hnone] at hmark
          cases hmark
        · exact .inl (hsome.symm.trans hmark)
      · exact .inr hold
  · intro i n' hn'
    rw [node?_modify, Option.map_eq_some_iff] at hn'
    obtain ⟨m, hm, rfl⟩ := hn'
    split_ifs
    · rw [(hf m).handlers]
      exact h.handlers hm
    · exact h.handlers hm
  · rintro hnil e ⟨⟩
    rcases hmarked with ⟨-, -, hq⟩ | hsome
    · exact hq
    · exact h.stay hnil c hsome

/-- Linking a child changes the children only. -/
theorem link_like (c : ℕ) (n : Node M) (l : Label) : (l.link c n).endpoint = n.endpoint ∧
    (l.link c n).name = n.name ∧ (l.link c n).regex = n.regex ∧
      (l.link c n).handlers = n.handlers ∧ (l.link c n).middlewares = n.middlewares := by
  cases l with
  | literal key => exact ⟨rfl, rfl, rfl, rfl, rfl⟩
  | param name regex => exact ⟨rfl, rfl, rfl, rfl, rfl⟩

/-- The node that is new below another one. -/
theorem node?_linked_new (fresh : Node M) (hn : t.node? p = some n) :
    ((t.push fresh).modify p (l.link t.nodes.length)).node? t.nodes.length = some fresh := by
  rw [node?_modify, node?_push, if_pos rfl, Option.map_some, if_neg (lt_of_node? hn).ne]

/-- The nodes that were there: one of them has a new link. -/
theorem node?_linked_old {i : ℕ} (fresh : Node M) (hn : t.node? i = some n) :
    ((t.push fresh).modify p (l.link t.nodes.length)).node? i =
      some (if p = i then l.link t.nodes.length n else n) := by
  rw [node?_modify, node?_push, if_neg (lt_of_node? hn).ne, hn, Option.map_some]

/-- The nodes are those that were there, and the new one. -/
theorem node?_linked {i : ℕ} {m : Node M} (hn : t.node? p = some n)
    (hm : ((t.push fresh).modify p (l.link t.nodes.length)).node? i = some m) :
    m = fresh ∨ ∃ k, t.node? i = some k ∧ (m = k ∨ m = l.link t.nodes.length k) := by
  by_cases hi : i = t.nodes.length
  · rw [hi, node?_linked_new _ hn] at hm
    exact .inl (Option.some.inj hm).symm
  · cases hk : t.node? i with
    | none =>
        rw [node?_modify, node?_push, if_neg hi, hk] at hm
        cases hm
    | some k =>
        rw [node?_linked_old _ hk] at hm
        refine .inr ⟨k, rfl, ?_⟩
        rw [← Option.some.inj hm]
        split_ifs
        · exact .inr rfl
        · exact .inl rfl

/-- **The foot of a spur**: what grows at a node without links is a spur. -/
theorem Graft.foot (h : Graft t t' q labels marked) (hn : t.node? q = some n)
    (hchildren : n.children = []) (hcolon : n.colonChild = none) :
    ∃ n', t'.node? q = some n' ∧ n'.name = n.name ∧ n'.regex = n.regex ∧
      Spur t' marked q labels := by
  cases labels with
  | nil =>
      obtain ⟨n', hn', hlike⟩ := h.old hn (.inr rfl)
      exact ⟨n', hn', hlike.name, hlike.regex, ⟨n', hn', hlike.children.trans hchildren,
        hlike.colonChild.trans hcolon⟩, h.stay rfl⟩
  | cons l ls =>
      obtain ⟨m, n', c, d, hm, -, hn', hlike, -, hd, hdname, hdregex, hspur⟩ := h.sprout l ls rfl
      obtain rfl := Option.some.inj (hn.symm.trans hm)
      have hlinks : n'.children = (l.link c ({ id := [] } : Node M)).children ∧
          n'.colonChild = (l.link c ({ id := [] } : Node M)).colonChild := by
        rw [hlike.children, hlike.colonChild]
        cases l with
        | literal key => exact ⟨by rw [Label.link, hchildren]; rfl, hcolon⟩
        | param name regex => exact ⟨hchildren, rfl⟩
      obtain ⟨-, hname, hregex, -⟩ := link_like c n l
      exact ⟨n', hn', hlike.name.trans hname, hlike.regex.trans hregex, n', c, d, hn', hlinks.1,
        hlinks.2, hd, hdname, hdregex, hspur⟩

/-- **One more node**: a spur that grows at a new node grows, one label longer, at the node it hangs
on. -/
theorem Graft.grown (hn : t.node? p = some n) (hfree : l.free n = true)
    (hchildren : fresh.children = []) (hcolon : fresh.colonChild = none)
    (hname : fresh.name = l.name) (hregex : fresh.regex = l.regex)
    (hend : fresh.endpoint = false) (hhandlers : fresh.handlers = [])
    (h : Graft ((t.push fresh).modify p (l.link t.nodes.length)) t' t.nodes.length labels marked) :
    Graft t t' p (l :: labels) marked := by
  refine ⟨?_, ?_, ?_, ?_, nofun⟩
  · intro i m hm hi
    have hip : i ≠ p := hi.resolve_right (List.cons_ne_nil _ _)
    obtain ⟨m', hm', hlike⟩ := h.old (node?_linked_old _ hm) (.inl (lt_of_node? hm).ne)
    rw [if_neg hip.symm] at hlike
    exact ⟨m', hm', hlike⟩
  · rintro l' ls heq
    obtain ⟨rfl, rfl⟩ := List.cons.inj heq
    obtain ⟨n', hn', hlike⟩ := h.old (node?_linked_old _ hn) (.inl (lt_of_node? hn).ne)
    rw [if_pos rfl] at hlike
    obtain ⟨d, hd, hdname, hdregex, hspur⟩ := h.foot (node?_linked_new _ hn) hchildren hcolon
    exact ⟨n, n', t.nodes.length, d, hn, hfree, hn', hlike, Nat.le_refl _, hd,
      hdname.trans hname, hdregex.trans hregex, hspur⟩
  · intro i n' hn' hend'
    refine (h.endpoint hn' hend').imp_right ?_
    rintro ⟨m, hm, hmend⟩
    rcases node?_linked hn hm with rfl | ⟨k, hk, rfl | rfl⟩
    · rw [hend] at hmend
      cases hmend
    · exact ⟨m, hk, hmend⟩
    · rw [(link_like _ k l).1] at hmend
      exact ⟨k, hk, hmend⟩
  · intro i n' hn'
    rcases h.handlers hn' with hnil | ⟨m, hm, heq⟩
    · exact .inl hnil
    · rcases node?_linked hn hm with rfl | ⟨k, hk, rfl | rfl⟩
      · exact .inl (heq.trans hhandlers)
      · exact .inr ⟨m, hk, heq⟩
      · exact .inr ⟨k, hk, heq.trans (link_like _ k l).2.2.2.1⟩

/-- Nothing sprouts where the place of the label is taken. -/
theorem sprout_refused (hn : t.node? p = some n)
    (hbar : ∀ l, env.labelOf t.segmentPattern segment = some l → l.free n = false) :
    t.sprout env p (segment :: fs) = [] := by
  rw [TrieData.sprout, Env.labels, deref_eq hn]
  cases hl : env.labelOf t.segmentPattern segment with
  | none => rfl
  | some l =>
      dsimp only
      rw [hbar l hl, if_neg Bool.false_ne_true]

/-- A label sprouts where its place is free. -/
theorem sprout_grown (hn : t.node? p = some n)
    (hlabel : env.labelOf t.segmentPattern segment = some l) (hfree : l.free n = true) :
    t.sprout env p (segment :: fs) = l :: env.labels t.segmentPattern fs := by
  rw [TrieData.sprout, Env.labels, deref_eq hn, hlabel]
  exact if_pos hfree

/-- A segment that leads nowhere departs. -/
theorem departs_none (hlead : t.leadsTo env p segment = none) :
    t.departs env p (segment :: fs) = (p, segment :: fs) := by
  rw [TrieData.departs, hlead]

/-- A segment that leads on does not. -/
theorem departs_some (hlead : t.leadsTo env p segment = some c) :
    t.departs env p (segment :: fs) = t.departs env c fs := by
  rw [TrieData.departs, hlead]

/-- **Nothing grows behind a refused segment.** -/
theorem Kept.graft_refused (hkept : Kept t t') (hn : t.node? p = some n)
    (hlead : t.leadsTo env p segment = none)
    (hbar : ∀ l, env.labelOf t.segmentPattern segment = some l → l.free n = false) :
    Graft t t' (t.departs env p (segment :: fs)).1
      (t.sprout env (t.departs env p (segment :: fs)).1 (t.departs env p (segment :: fs)).2)
        none := by
  rw [departs_none hlead]
  dsimp only
  rw [sprout_refused hn hbar]
  exact hkept.graft p

/-- A node marked as an endpoint. -/
theorem mark_like (n : Node M) : n.Like { n with endpoint := true } :=
  ⟨rfl, rfl, rfl, rfl, rfl, rfl, rfl⟩

/-- **An insertion along the segments** adds a spur and marks the node it returns. -/
theorem insertNode_graft (h : t.Ok) (hn : t.node? p = some n) (frag : Text) (frags : List Text) :
    Graft t (t.insertNode env p frag frags).1 (t.departs env p (frag :: frags)).1
      (t.sprout env (t.departs env p (frag :: frags)).1 (t.departs env p (frag :: frags)).2)
        (t.insertNode env p frag frags).2.toOption := by
  induction frags generalizing t p n frag with
  | nil =>
      have htaken : Taken env t p n frag (t.getOrNewNode env p n frag) :=
        getOrNewNode_taken h hn frag
      rw [TrieData.insertNode, hn]
      dsimp only
      cases hr : t.getOrNewNode env p n frag with
      | mk t' result =>
          rw [hr] at htaken
          cases htaken with
          | @found t' d hlead hkept =>
              rw [departs_some hlead, TrieData.departs]
              exact (hkept.graft d).mark mark_like (.inl ⟨rfl, rfl, rfl⟩)
          | refused hlead hbar hkept => exact hkept.graft_refused hn hlead hbar
          | grown fresh hlead hlabel hfree hchildren hcolon hname hregex hend hhandlers ht' =>
              rw [departs_none hlead]
              dsimp only
              rw [sprout_grown hn hlabel hfree, ht']
              refine .grown hn hfree hchildren hcolon hname hregex hend hhandlers ?_
              exact ((Kept.refl _).graft _).mark mark_like (.inl ⟨rfl, rfl, rfl⟩)
  | cons next frags ih =>
      have hstep : t.Inserts (t.getOrNewNode env p n frag) _ := getOrNewNode_inserts h hn frag
      have htaken : Taken env t p n frag (t.getOrNewNode env p n frag) :=
        getOrNewNode_taken h hn frag
      rw [TrieData.insertNode, hn]
      dsimp only
      cases hr : t.getOrNewNode env p n frag with
      | mk t' result =>
          rw [hr] at htaken hstep
          cases htaken with
          | found hlead hkept =>
              obtain ⟨d, hd, -⟩ := leadsTo_child h hn hlead
              obtain ⟨m, hm⟩ := @departs_node M env t d _ (next :: frags) h hd
              have hrest := ih hstep.ok (hkept.node hd) next
              rw [hkept.departs h hd, hkept.sprout hm] at hrest
              rw [departs_some hlead]
              exact hrest.of_kept hkept hm
          | refused hlead hbar hkept => exact hkept.graft_refused hn hlead hbar
          | grown fresh hlead hlabel hfree hchildren hcolon hname hregex hend hhandlers ht' =>
              have hnew : t'.node? t.nodes.length = some fresh := ht' ▸ node?_linked_new _ hn
              have hpattern : t'.segmentPattern = t.segmentPattern := by rw [ht']; rfl
              have hrest := ih hstep.ok hnew next
              rw [departs_bare hnew hchildren hcolon] at hrest
              dsimp only at hrest
              rw [sprout_bare hnew hchildren hcolon, hpattern] at hrest
              rw [departs_none hlead]
              dsimp only
              rw [sprout_grown hn hlabel hfree]
              exact .grown hn hfree hchildren hcolon hname hregex hend hhandlers (ht' ▸ hrest)

/-- **An insertion adds a spur and marks an endpoint**, and changes nothing else, whether it throws
or not. The node that it returns is the one where the pattern ends, the last of the spur if nodes
are made. -/
theorem addNode_graft (h : t.Ok) (env : Env) (pattern : Text) :
    Graft t (t.addNode env pattern).1 (t.growth env pattern).1 (t.growth env pattern).2
      (t.addNode env pattern).2.toOption := by
  rw [TrieData.addNode, TrieData.growth]
  by_cases hslashes : ascii "//" <:+: trimPathSpaces pattern
  · rw [if_pos hslashes, if_pos hslashes]
    exact (Kept.refl t).graft 0
  rw [if_neg hslashes, if_neg hslashes]
  obtain ⟨r, hr, -⟩ := h.root
  cases hsplit : stringSplit slash (trimPrefixSlash (trimPathSpaces pattern)) with
  | nil => exact absurd hsplit (stringSplit_ne_nil _ _)
  | cons frag frags =>
      have hsegments : segmentsOf pattern = frag :: frags := hsplit
      rw [hsegments]
      have hinsert := @insertNode_graft M env t r 0 h hr frag frags
      dsimp only
      cases hresult : t.insertNode env 0 frag frags with
      | mk t' result =>
          rw [hresult] at hinsert
          cases result with
          | error e => exact hinsert
          | ok c =>
              refine hinsert.mark (fun n => ?_) (.inr rfl)
              split_ifs
              · exact ⟨rfl, rfl, rfl, rfl, rfl, rfl, rfl⟩
              · exact .refl n

end Grafted

end ArchNet.Routing
