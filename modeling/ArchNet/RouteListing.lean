import ArchNet.TrieListing

/-!
# What the Listing of the Routes Lists

`RestFul::stat` of `http/restful.h` against the nodes that have handlers, in every router that
registrations build.

## Conventions

A path leads back to a node, its constraints aside, where `add_node` returns the node in the trie
without its constraints.

## Main definitions

* `Router.stat`: the code.
* `Lists`: one entry for each endpoint and each method that it has handlers for, and no other.
* `Titled`: every segment on the way to a node with handlers has a name.

## Main results

* `addNode_of_entries`: a pattern whose segments have entries leads to the last one.
* `stat_lists_iff`: **the listing lists every route exactly if every segment has a name**; the
  routes that end in a slash are missing.
-/

open Bytes

namespace ArchNet.Routing

variable {M ρ : Type}

/-- `RestFul::stat`. -/
def Router.stat (r : Router ρ) : List (Text × Text) := walkTrie r.trie.toTrieData

/-- The trie without the constraints of its parameters. -/
def TrieData.bare (t : TrieData M) : TrieData M :=
  { t with nodes := t.nodes.map fun n => { n with regex := [] } }

/-- **The path leads back to the node** when it is added once more, constraints aside. -/
def LeadsBack (env : Env) (t : TrieData M) (path : Text) (c : ℕ) : Prop :=
  (t.bare.addNode env path).2 = .ok c

/-- An endpoint with handlers for the method. -/
def Registered (t : TrieData M) (c : ℕ) (method : Text) : Prop :=
  ∃ n, t.node? c = some n ∧ n.endpoint = true ∧ n.findHandler method = true

/-- **The entries list the routes**: one entry for each endpoint and each method that it has
handlers for, whose path leads back to the endpoint, and no other. -/
def Lists (env : Env) (t : TrieData M) (result : List (Text × Text)) : Prop :=
  ∃ routes : List (ℕ × Text), routes.Nodup ∧ (∀ c method, (c, method) ∈ routes ↔
    Registered t c method) ∧ ∃ entries, result.Perm entries ∧
      List.Forall₂ (fun x e => e.1 = x.2 ∧ LeadsBack env t e.2 x.1) routes entries

/-- The name that a path shows for a segment, without the colon of a parameter. -/
def Label.title : Label → Text
  | literal key => key
  | param name _ => name

/-- **Every segment on the way to a node with handlers has a name.** -/
def Titled (t : TrieData M) : Prop :=
  ∀ c method, Registered t c method → ∀ ls, patternOf t c = some ls → ∀ l ∈ ls, l.title ≠ []

/-- A listing may come in any order. -/
theorem Lists.perm {env : Env} {t : TrieData M} {result result' : List (Text × Text)}
    (h : Lists env t result) (hperm : result'.Perm result) : Lists env t result' := by
  obtain ⟨routes, hnodup, hmem, entries, hentries, hall⟩ := h
  exact ⟨routes, hnodup, hmem, entries, hperm.trans hentries, hall⟩

/-! ### Adding a pattern again -/

section Again

variable {env : Env} {t t' : TrieData M} {n : Node M} {p c : ℕ} {frag : Text} {frags : List Text}

/-- The name of a parameter segment is accepted. -/
def NameAccepted (env : Env) (segmentPattern segment : Text) : Prop :=
  (fragOf segment).head? = some 58 → ∀ name regex, colonParts (fragOf segment) = .ok (name, regex) →
    env.regexMatch name segmentPattern = true

/-- A segment whose entry is there. -/
theorem getOrNewNode_of_entry (ht : t.Ok) (hentry : t.Entry p frag c) (hn : t.node? p = some n)
    (haccepted : NameAccepted env t.segmentPattern frag) :
    (t.getOrNewNode env p n frag).2 = .ok c ∧ (t.getOrNewNode env p n frag).1.segmentPattern =
      t.segmentPattern := by
  obtain ⟨n', hn', hentry⟩ := hentry
  obtain rfl := Option.some.inj (hn.symm.trans hn')
  rw [TrieData.getOrNewNode]
  rcases hentry with ⟨-, hfind⟩ | ⟨hhead, hcolon, name, regex, child, hparts, hchild, hcheck⟩
  · rw [hfind]
    exact ⟨rfl, rfl⟩
  · have hnone : n.findChild (fragOf frag) = none := by
      cases hfind : n.findChild (fragOf frag) with
      | none => rfl
      | some d => exact absurd hhead (head?_of_findChild ht hn hfind)
    have hempty : fragOf frag ≠ [] := by
      intro hnil
      rw [hnil] at hhead
      cases hhead
    rw [hnone]
    dsimp only
    rw [if_neg hempty, if_pos hhead, hparts]
    dsimp only
    rw [TrieData.newColonChild, TrieData.checkSegment, haccepted hhead name regex hparts,
      if_neg (by decide), hcolon]
    dsimp only
    rw [hchild]
    dsimp only
    rw [if_pos hcheck]
    exact ⟨rfl, rfl⟩

/-- Segments whose entries are there. -/
theorem insertNode_of_entries (ht : t.Ok) (hentries : t.Entries p (frag :: frags) c)
    (haccepted : ∀ s ∈ frag :: frags, NameAccepted env t.segmentPattern s) :
    (t.insertNode env p frag frags).2 = .ok c := by
  induction frags generalizing t p frag with
  | nil =>
      cases hentries with
      | @cons _ d _ _ _ hentry hrest =>
          cases hrest
          obtain ⟨n, hn, -⟩ := id hentry
          obtain ⟨hr, -⟩ := getOrNewNode_of_entry ht hentry hn (haccepted frag (by simp))
          rw [TrieData.insertNode, hn]
          dsimp only
          cases hresult : t.getOrNewNode env p n frag with
          | mk t' r =>
              rw [hresult] at hr
              obtain rfl : r = .ok c := hr
              rfl
  | cons next frags ih =>
      cases hentries with
      | @cons _ d _ _ _ hentry hrest =>
          obtain ⟨n, hn, -⟩ := id hentry
          obtain ⟨hr, hpattern⟩ := getOrNewNode_of_entry ht hentry hn (haccepted frag (by simp))
          have hins : t.Inserts (t.getOrNewNode env p n frag) _ := getOrNewNode_inserts ht hn frag
          rw [TrieData.insertNode, hn]
          dsimp only
          cases hresult : t.getOrNewNode env p n frag with
          | mk t' r =>
              rw [hresult] at hr hpattern hins
              obtain rfl : r = .ok d := hr
              refine ih hins.ok (hrest.grows hins.grows) fun s hs => ?_
              rw [show t'.segmentPattern = t.segmentPattern from hpattern]
              exact haccepted s (List.mem_cons_of_mem _ hs)

/-- **A pattern whose segments have entries leads to the last one.** -/
theorem addNode_of_entries {pattern : Text} (ht : t.Ok)
    (hslashes : ¬ ascii "//" <:+: trimPathSpaces pattern)
    (hentries : t.Entries 0 (segmentsOf pattern) c)
    (haccepted : ∀ s ∈ segmentsOf pattern, NameAccepted env t.segmentPattern s) :
    (t.addNode env pattern).2 = .ok c := by
  rw [TrieData.addNode, if_neg hslashes]
  cases hsplit : stringSplit slash (trimPrefixSlash (trimPathSpaces pattern)) with
  | nil => exact absurd hsplit (stringSplit_ne_nil _ _)
  | cons frag frags =>
      have hsegments : segmentsOf pattern = frag :: frags := hsplit
      rw [hsegments] at hentries haccepted
      have hinsert := insertNode_of_entries ht hentries haccepted
      dsimp only
      cases hresult : t.insertNode env 0 frag frags with
      | mk t' r =>
          rw [hresult] at hinsert
          obtain rfl : r = .ok c := hinsert
          rfl

end Again

/-! ### The path of a node -/

section Path

variable {s w : Text} {l : Label} {ls : List Label}

/-- A word without slashes brings none together. -/
theorem infix_append_iff (hw : slash ∉ w) : ascii "//" <:+: w ++ s ↔ ascii "//" <:+: s := by
  induction w with
  | nil => rfl
  | cons a w ih =>
      rw [List.mem_cons, not_or] at hw
      rw [List.cons_append, infix_cons_iff, ih hw.2]
      exact or_iff_right fun h => hw.1 h.1.symm

/-- The text of a path begins with a slash and its first word. -/
theorem pathText_cons (l : Label) (ls : List Label) :
    pathText (l :: ls) = slash :: (l.word ++ pathText ls) := rfl

/-- **Two slashes in a row** stand where a word in front of the last one is empty. -/
theorem infix_pathText_iff (hclean : ∀ k ∈ ls ++ [l], Clean k.word) :
    ascii "//" <:+: pathText (ls ++ [l]) ↔ ∃ k ∈ ls, k.word = [] := by
  have hslash : ∀ k ∈ ls ++ [l], slash ∉ k.word := fun k hk hmem => (hclean k hk _ hmem).1 rfl
  induction ls with
  | nil =>
      have hl := hslash l (by simp)
      rw [List.nil_append, pathText_cons, infix_cons_iff, pathText, List.flatMap_nil,
        infix_append_iff hl, List.append_nil]
      refine iff_of_false ?_ (by simp)
      rintro (⟨-, hhead⟩ | hinfix)
      · exact hl (List.mem_of_head? hhead)
      · exact absurd hinfix (by decide)
  | cons k ls ih =>
      have hk := hslash k (by simp)
      have hrest : ascii "//" <:+: pathText (ls ++ [l]) ↔ ∃ k ∈ ls, k.word = [] :=
        ih (fun k' hk' => hclean k' (List.mem_cons_of_mem _ hk'))
          fun k' hk' => hslash k' (List.mem_cons_of_mem _ hk')
      rw [List.cons_append, pathText_cons, infix_cons_iff, infix_append_iff hk, hrest,
        List.exists_mem_cons_iff]
      refine or_congr_left ⟨fun h => ?_, fun h => ⟨rfl, ?_⟩⟩
      · cases hw : k.word with
        | nil => rfl
        | cons a w =>
            rw [hw, List.cons_append, List.head?_cons] at h
            rw [hw, Option.some.inj h.2] at hk
            exact absurd (List.mem_cons_self ..) hk
      · rw [h, List.nil_append]
        cases ls <;> rfl

/-- A path of clean words has nothing to trim. -/
theorem trimPathSpaces_pathText (hclean : ∀ k ∈ ls, Clean k.word) :
    trimPathSpaces (pathText ls) = pathText ls := by
  refine List.filter_eq_self.mpr fun c hc => ?_
  obtain ⟨k, hk, hc⟩ := List.mem_flatMap.mp hc
  rcases List.mem_cons.mp hc with rfl | hc
  · rfl
  · rw [(hclean k hk c hc).2]
    rfl

/-- The segments of a path are the words. -/
theorem segmentsOf_pathText (hne : ls ≠ []) (hclean : ∀ k ∈ ls, Clean k.word)
    (hword : ∀ k ∈ ls, k.word ≠ []) : segmentsOf (pathText ls) = ls.map Label.word := by
  have hslash : ∀ k ∈ ls, slash ∉ k.word := fun k hk hmem => (hclean k hk _ hmem).1 rfl
  rw [segmentsOf, trimPathSpaces_pathText hclean]
  cases ls with
  | nil => exact absurd rfl hne
  | cons l ls =>
      have htrim : trimPrefixSlash (pathText (l :: ls)) = l.word ++ pathText ls := by
        rw [pathText_cons, trimPrefixSlash, List.dropWhile_cons_of_pos (by simp)]
        cases hw : l.word with
        | nil => exact absurd hw (hword l (by simp))
        | cons a w =>
            refine List.dropWhile_cons_of_neg ?_
            have ha := hslash l (by simp)
            rw [hw, List.mem_cons, not_or] at ha
            simpa using Ne.symm ha.1
      rw [htrim]
      -- the words are split off one after the other
      clear htrim hne hclean hword
      induction ls generalizing l with
      | nil =>
          rw [pathText, List.flatMap_nil, List.append_nil,
            stringSplit_of_not_mem (hslash l (by simp))]
          rfl
      | cons k ls ih =>
          rw [pathText_cons, stringSplit_append, stringSplit_of_not_mem (hslash l (by simp)),
            ih k fun k' hk' => hslash k' (List.mem_cons_of_mem _ hk')]
          rfl

end Path

/-! ### Back to the node -/

section Back

variable {env : Env} {t : TrieData M} {n d : Node M} {i p c : ℕ} {l : Label} {ls : List Label}

/-- The nodes without their expressions. -/
theorem node?_bare : t.bare.node? i = (t.node? i).map fun n => { n with regex := [] } :=
  List.getElem?_map ..

/-- Without its expressions a trie is well formed. -/
theorem bare_ok (ht : t.Ok) : t.bare.Ok := by
  have hold : ∀ {i m}, t.bare.node? i = some m →
      ∃ n, t.node? i = some n ∧ m = { n with regex := [] } := by
    intro i m hm
    rw [node?_bare, Option.map_eq_some_iff] at hm
    obtain ⟨n, hn, rfl⟩ := hm
    exact ⟨n, hn, rfl⟩
  have hbare : ∀ {i n}, t.node? i = some n → t.bare.node? i = some { n with regex := [] } :=
    fun hn => by rw [node?_bare, hn, Option.map_some]
  refine ⟨?_, ?_, ?_, ?_, ?_⟩
  · rw [TrieData.bare, List.length_map]
    exact ht.counter
  · obtain ⟨r, hr, hnone⟩ := ht.root
    exact ⟨_, hbare hr, hnone⟩
  · intro i m hm hi
    obtain ⟨n, hn, rfl⟩ := hold hm
    obtain ⟨q, hq, hlt⟩ := ht.parent hn hi
    exact ⟨q, hq, hlt⟩
  · intro i m hm
    obtain ⟨n, hn, rfl⟩ := hold hm
    have hl := ht.linked hn
    refine TrieData.Linked.mono ⟨hl.child, hl.colon, hl.keys, hl.literal, hl.links, hl.owner⟩
      fun j k hk => ?_
    exact ⟨_, hbare hk, rfl⟩
  · intro i m hm
    obtain ⟨n, hn, rfl⟩ := hold hm
    exact ht.ids (n := n) hn

/-- A label whose word is read as it is written. -/
def Label.Readable (env : Env) (segmentPattern : Text) : Label → Prop
  | literal key => Clean key ∧ key.head? ≠ some 58
  | param name _ => ReadBack env segmentPattern name

/-- A label that is read back has a clean word. -/
theorem Label.Readable.clean {segmentPattern : Text} (h : l.Readable env segmentPattern) :
    Clean l.word := by
  cases l with
  | literal key => exact h.1
  | param name regex =>
      intro c hc
      rcases List.mem_cons.mp hc with rfl | hc
      · decide
      · exact h.clean c hc

/-- The labels of links are readable. -/
theorem At.readable (h : Listable env t) (ht : t.Ok) (hat : At t c ls) :
    ∀ l ∈ ls, l.Readable env t.segmentPattern := by
  induction hat with
  | root => simp
  | @child p c ls _ hlink ih =>
      intro l hl
      rcases List.mem_append.mp hl with hl | hl
      · exact ih l hl
      rw [List.mem_singleton] at hl
      obtain ⟨n, hn⟩ := hlink.node
      cases l with
      | literal key =>
          have hkey := (labelBelow_literal_iff ht hn).mp hl.symm
          exact ⟨h.key hn _ hkey, (ht.linked hn).literal _ hkey⟩
      | param name regex =>
          have hcolon := colonChild_of_label ht hn hlink hl.symm
          rw [labelBelow_param ht hn hcolon] at hl
          obtain ⟨rfl, -⟩ := Label.param.inj hl
          exact h.name hn hcolon

/-- **The words lead to the node** in the trie without its constraints. -/
theorem entries_bare (h : Listable env t) (ht : t.Ok) (hat : At t c ls)
    (htitle : ∀ l ∈ ls, l.title ≠ []) : t.bare.Entries 0 (ls.map Label.word) c := by
  induction hat with
  | root => exact .nil 0
  | @child p c ls hp hlink ih =>
      have hfront := ih fun l hl => htitle l (List.mem_append_left _ hl)
      rw [List.map_append, TrieData.Entries.append_iff]
      refine ⟨p, hfront, .cons ?_ (.nil c)⟩
      obtain ⟨n, hn⟩ := hlink.node
      have hbare : t.bare.node? p = some { n with regex := [] } := by
        rw [node?_bare, hn, Option.map_some]
      have htitle' := htitle (labelBelow t p c) (by simp)
      have hreadable := (At.child hp hlink).readable h ht (labelBelow t p c) (by simp)
      refine ⟨_, hbare, ?_⟩
      cases hl : labelBelow t p c with
      | literal key =>
          rw [hl] at hreadable
          have hslash : key.head? ≠ some slash := fun hhead =>
            (hreadable.1 slash (List.mem_of_head? hhead)).1 rfl
          have hkey := (labelBelow_literal_iff ht hn).mp hl
          have hfind := (findChild_eq_some_iff (bare_ok ht) hbare).mpr
            ⟨_, hkey, beq_self_eq_true (cstr key), rfl⟩
          rw [TrieData.findChild, deref_eq hbare] at hfind
          rw [Label.word, fragOf_eq_self hslash]
          exact .inl ⟨hreadable.2, hfind⟩
      | param name regex =>
          rw [hl] at hreadable htitle'
          have hcolon := colonChild_of_label ht hn hlink hl
          obtain ⟨d, hd, -⟩ := (ht.linked hn).colon c hcolon
          rw [labelBelow_param ht hn hcolon, deref_eq hd] at hl
          obtain ⟨rfl, -⟩ := Label.param.inj hl
          have hd' : t.bare.node? c = some { d with regex := [] } := by
            rw [node?_bare, hd, Option.map_some]
          rw [Label.word, fragOf_eq_self (by simp [slash])]
          refine .inr ⟨rfl, hcolon, d.name, [], _, hreadable.parts htitle', hd', ?_⟩
          simp [checkColonChild, sameName]

/-- A label with a title has a word. -/
theorem word_ne_nil (h : l.title ≠ []) : l.word ≠ [] := by
  cases l with
  | literal key => exact h
  | param name regex => exact List.cons_ne_nil _ _

/-- **A path of names leads back.** -/
theorem leadsBack_of_titled (h : Listable env t) (ht : t.Ok) (hat : At t c (ls ++ [l]))
    (htitle : ∀ k ∈ ls ++ [l], k.title ≠ []) : LeadsBack env t (pathText (ls ++ [l])) c := by
  have hreadable := hat.readable h ht
  have hclean : ∀ k ∈ ls ++ [l], Clean k.word := fun k hk => (hreadable k hk).clean
  have hword : ∀ k ∈ ls ++ [l], k.word ≠ [] := fun k hk => word_ne_nil (htitle k hk)
  have hsegments := segmentsOf_pathText (by simp) hclean hword
  refine addNode_of_entries (bare_ok ht) ?_ ?_ ?_
  · rw [trimPathSpaces_pathText hclean, infix_pathText_iff hclean]
    rintro ⟨k, hk, hnil⟩
    exact hword k (List.mem_append_left _ hk) hnil
  · rw [hsegments]
    exact entries_bare h ht hat htitle
  · rw [hsegments]
    intro s hs hhead name regex hparts
    obtain ⟨k, hk, rfl⟩ := List.mem_map.mp hs
    have hslash : k.word.head? ≠ some slash := fun hh =>
      (hclean k hk slash (List.mem_of_head? hh)).1 rfl
    rw [fragOf_eq_self hslash] at hhead hparts
    cases k with
    | literal key => exact absurd hhead (hreadable _ hk).2
    | param name' regex' =>
        have hread : ReadBack env t.segmentPattern name' := hreadable _ hk
        rw [Label.word, hread.parts (htitle _ hk)] at hparts
        obtain ⟨rfl, -⟩ := Prod.ext_iff.mp (Except.ok.inj hparts)
        exact hread.accepted

/-- Every segment of a path of literal nodes has one. -/
theorem entry_of_mem {t : TrieData M} {segments : List Text} {s : Text}
    (h : t.Entries p segments c) (hs : s ∈ segments) : ∃ q e, t.Entry q s e := by
  induction h with
  | nil p => cases hs
  | cons hentry _ ih =>
      rcases List.mem_cons.mp hs with rfl | hs
      · exact ⟨_, _, hentry⟩
      · exact ih hs

/-- **Only a path of names leads anywhere**, where the last segment is not empty. -/
theorem titled_of_leadsBack (h : Listable env t) (ht : t.Ok) (hat : At t p (ls ++ [l]))
    (hl : l ≠ .literal []) (hback : LeadsBack env t (pathText (ls ++ [l])) c) :
    ∀ k ∈ ls ++ [l], k.title ≠ [] := by
  have hreadable := hat.readable h ht
  have hclean : ∀ k ∈ ls ++ [l], Clean k.word := fun k hk => (hreadable k hk).clean
  -- two slashes in a row are refused
  have hslashes : ¬ ascii "//" <:+: trimPathSpaces (pathText (ls ++ [l])) := by
    intro hinfix
    rw [LeadsBack, TrieData.addNode, if_pos hinfix] at hback
    cases hback
  rw [trimPathSpaces_pathText hclean, infix_pathText_iff hclean] at hslashes
  have hword : ∀ k ∈ ls ++ [l], k.word ≠ [] := by
    intro k hk hnil
    rcases List.mem_append.mp hk with hk | hk
    · exact hslashes ⟨k, hk, hnil⟩
    · rw [List.mem_singleton] at hk
      subst hk
      cases k with
      | literal key => exact hl (congrArg Label.literal hnil)
      | param name regex => cases hnil
  -- a colon alone is refused
  intro k hk hnil
  cases k with
  | literal key => exact hword _ hk hnil
  | param name regex =>
      obtain rfl : name = [] := hnil
      obtain ⟨hentries, -⟩ := ((bare_ok ht).addNode env (pathText (ls ++ [l]))).result c hback
      rw [segmentsOf_pathText (by simp) hclean hword] at hentries
      have hmem : [58] ∈ (ls ++ [l]).map Label.word := List.mem_map.mpr ⟨_, hk, rfl⟩
      obtain ⟨q, e, n, -, hentry⟩ := entry_of_mem hentries hmem
      rcases hentry with ⟨hhead, -⟩ | ⟨-, -, name, regex', -, hparts, -⟩
      · exact hhead (by decide)
      · have herror : colonParts (fragOf [58]) = .error .outOfRange := by decide
        rw [herror] at hparts
        cases hparts

end Back

/-! ### The listing -/

section Listing

variable {env : Env} {t : TrieData M} {r : Router ρ} {n : Node M} {c : ℕ} {method path : Text}
  {nodes : List ℕ}

/-- A path of links has labels. -/
theorem exists_at (h : PathTo t c nodes) : ∃ ls, At t c ls := by
  induction nodes using List.reverseRecOn generalizing c with
  | nil =>
      obtain ⟨more, hnil, -⟩ := h
      cases hnil
  | append_singleton front d ih =>
      rcases h.last with ⟨rfl, -⟩ | ⟨q, back, hpath, hlink, hl⟩
      · exact ⟨[], .root⟩
      · obtain ⟨rfl, -⟩ := List.append_inj' hl rfl
        obtain ⟨ls, hls⟩ := ih hpath
        exact ⟨_, .child hls hlink⟩

/-- The methods of a node are the keys of its handlers. -/
theorem findHandler_iff (h : Listable env t) (hn : t.node? c = some n) :
    n.findHandler method = true ↔ method ∈ n.handlers.map Prod.fst := by
  rw [Node.findHandler, decide_eq_true_eq]
  cases hlookup : n.handlers.lookup method with
  | none =>
      refine iff_of_false (by simp) fun hmem => ?_
      obtain ⟨e, he, rfl⟩ := List.mem_map.mp hmem
      simpa using List.lookup_eq_none_iff.mp hlookup e he
  | some actions =>
      obtain ⟨front, back, heq, -⟩ := List.lookup_eq_some_iff.mp hlookup
      have hmem : (method, actions) ∈ n.handlers := by
        rw [heq]
        exact List.mem_append_right _ (List.mem_cons_self ..)
      refine iff_of_true ?_ (List.mem_map_of_mem (f := Prod.fst) hmem)
      rw [Option.getD_some]
      exact List.length_pos_of_ne_nil (h.handlers hn _ hmem)

/-- The routes that the walk lists, each with its path. -/
def listed (t : TrieData M) : List (ℕ × Text × Text) :=
  (visits t t.nodes.length [] 0).flatMap fun v =>
    if (t.deref v.1).endpoint then (t.deref v.1).handlers.map fun it => (v.1, v.2, it.1) else []

/-- **The walk** gives back what is listed. -/
theorem walkTrie_eq_listed (h : Listable env t) :
    walkTrie t = (listed t).map fun x => (x.2.2, x.2.1) := by
  rw [walkTrie, walkFrom_eq h, listed, List.map_flatMap]
  refine List.flatMap_congr fun v _ => ?_
  rw [entriesAt]
  split_ifs
  · rw [List.map_map]
    rfl
  · rfl

/-- **What is listed.** -/
theorem mem_listed_iff (h : Listable env t) (ht : t.Ok) : (c, path, method) ∈ listed t ↔
    Registered t c method ∧ ∃ ls l, At t c (ls ++ [l]) ∧ l ≠ .literal [] ∧
      path = pathText (ls ++ [l]) := by
  have hvisits : (c, path) ∈ visits t t.nodes.length [] 0 ↔ ∃ ls l, At t c (ls ++ [l]) ∧
      l ≠ .literal [] ∧ path = pathText (ls ++ [l]) :=
    mem_visits ht .root (Nat.zero_add _).ge
  rw [← hvisits, listed, List.mem_flatMap]
  constructor
  · rintro ⟨⟨d, q⟩, hv, hmem⟩
    dsimp only at hmem
    split_ifs at hmem with hend
    · obtain ⟨e, he, heq⟩ := List.mem_map.mp hmem
      cases heq
      obtain ⟨ls, l, hat, -⟩ := hvisits.mp hv
      obtain ⟨n, hn⟩ := (hat.hasPattern ht).node ht
      rw [deref_eq hn] at hend he
      exact ⟨⟨n, hn, hend, (findHandler_iff h hn).mpr (List.mem_map_of_mem he)⟩, hv⟩
    · cases hmem
  · rintro ⟨⟨n, hn, hend, hfind⟩, hv⟩
    refine ⟨(c, path), hv, ?_⟩
    rw [deref_eq hn, if_pos hend]
    obtain ⟨e, he, rfl⟩ := List.mem_map.mp ((findHandler_iff h hn).mp hfind)
    exact List.mem_map.mpr ⟨e, he, rfl⟩

/-- No node is listed twice for a method. -/
theorem nodup_listed (h : Listable env t) (ht : t.Ok) :
    ((listed t).map fun x => (x.1, x.2.2)).Nodup := by
  rw [listed, List.map_flatMap, List.nodup_flatMap]
  have hnodup : ((visits t t.nodes.length [] 0).map Prod.fst).Nodup :=
    nodup_visits ht .root (Nat.zero_add _).ge
  constructor
  · intro v _
    split_ifs
    · rw [List.map_map]
      have hmethods : ((t.deref v.1).handlers.map Prod.fst).Nodup := by
        cases hn : t.node? v.1 with
        | none => simp [TrieData.deref, hn]
        | some n =>
            rw [deref_eq hn]
            exact h.methods hn
      have hmap : (t.deref v.1).handlers.map
          ((fun x : ℕ × Text × Text => (x.1, x.2.2)) ∘ fun it => (v.1, v.2, it.1)) =
          ((t.deref v.1).handlers.map Prod.fst).map (Prod.mk v.1) := by
        rw [List.map_map]
        rfl
      rw [hmap]
      exact hmethods.map (Prod.mk_right_injective v.1)
    · exact List.nodup_nil
  · refine (List.pairwise_map.mp hnodup).imp fun {v v'} hne => ?_
    refine List.disjoint_left.mpr fun {x} hx hx' => ?_
    have hfirst : ∀ {v : ℕ × Text}, x ∈ ((if (t.deref v.1).endpoint then
        (t.deref v.1).handlers.map fun it => (v.1, v.2, it.1) else []).map
          fun x : ℕ × Text × Text => (x.1, x.2.2)) → x.1 = v.1 := by
      intro v hx
      obtain ⟨y, hy, rfl⟩ := List.mem_map.mp hx
      split_ifs at hy
      · obtain ⟨e, -, rfl⟩ := List.mem_map.mp hy
        rfl
      · cases hy
    exact hne ((hfirst hx).symm.trans (hfirst hx'))

theorem exists_of_forall₂ {α β : Type} {rel : α → β → Prop} {as : List α} {bs : List β} {a : α}
    (h : List.Forall₂ rel as bs) (ha : a ∈ as) : ∃ b ∈ bs, rel a b := by
  induction h with
  | nil => cases ha
  | @cons a' b' as bs hab _ ih =>
      rcases List.mem_cons.mp ha with rfl | ha
      · exact ⟨b', List.mem_cons_self .., hab⟩
      · obtain ⟨b, hb, hrel⟩ := ih ha
        exact ⟨b, List.mem_cons_of_mem _ hb, hrel⟩

/-- **The listing lists every route exactly if every segment has a name.** -/
theorem stat_lists_iff (hbuilt : Built env r) :
    Lists env r.trie.toTrieData r.stat ↔ Titled r.trie.toTrieData := by
  have h := hbuilt.listable
  have ht := r.trie.ok
  rw [Router.stat, walkTrie_eq_listed h]
  constructor
  · rintro ⟨routes, -, hroutes, entries, hperm, hall⟩ c method hreg ls hls
    obtain ⟨e, he, -, hback⟩ := exists_of_forall₂ hall ((hroutes c method).mpr hreg)
    -- the entry is that of a listed node, which is the one that its path leads back to
    obtain ⟨⟨d, path, m⟩, hlisted, rfl⟩ := List.mem_map.mp (hperm.mem_iff.mpr he)
    obtain ⟨-, ls', l, hat, hl, rfl⟩ := (mem_listed_iff h ht).mp hlisted
    have htitle := titled_of_leadsBack h ht hat hl hback
    have hagain : LeadsBack env r.trie.toTrieData (pathText (ls' ++ [l])) d :=
      leadsBack_of_titled h ht hat htitle
    obtain rfl := Except.ok.inj (hback.symm.trans hagain)
    obtain rfl := Option.some.inj (((hat.hasPattern ht).patternOf ht).symm.trans hls)
    exact htitle
  · intro htitled
    refine ⟨(listed r.trie.toTrieData).map fun x => (x.1, x.2.2), nodup_listed h ht,
      fun c method => ?_, _, List.Perm.refl _, ?_⟩
    · constructor
      · intro hmem
        obtain ⟨⟨d, path, m⟩, hlisted, heq⟩ := List.mem_map.mp hmem
        cases heq
        exact ((mem_listed_iff h ht).mp hlisted).1
      · intro hreg
        obtain ⟨n, hn, hend, -⟩ := id hreg
        obtain ⟨hc, nodes, hnodes⟩ := h.endpoint hn hend
        obtain ⟨ls, hat⟩ := exists_at hnodes
        have htitle := htitled c method hreg ls ((hat.hasPattern ht).patternOf ht)
        rcases List.eq_nil_or_concat' ls with rfl | ⟨ls, l, rfl⟩
        · exact absurd (hat.eq ht .root) hc
        · have hl : l ≠ .literal [] := by
            rintro rfl
            exact htitle (.literal []) (by simp) rfl
          exact List.mem_map.mpr ⟨(c, pathText (ls ++ [l]), method),
            (mem_listed_iff h ht).mpr ⟨hreg, ls, l, hat, hl, rfl⟩, rfl⟩
    · rw [List.forall₂_map_left_iff, List.forall₂_map_right_iff, List.forall₂_same]
      rintro ⟨c, path, method⟩ hlisted
      obtain ⟨hreg, ls, l, hat, -, rfl⟩ := (mem_listed_iff h ht).mp hlisted
      have htitle := htitled c method hreg _ ((hat.hasPattern ht).patternOf ht)
      exact ⟨rfl, leadsBack_of_titled h ht hat htitle⟩

end Listing

/-- A handler that does nothing. -/
def silent : HttpHandler Unit := fun request rest => (request, rest, none)

/-- The router with one route. -/
def routeOf (path : Text) : Router Unit :=
  (⟨.new anyName⟩ : Router Unit).register anyName (.initBasicMethod (ascii "GET") path [silent])

theorem routeOf_built (path : Text) : Built anyName (routeOf path) := .register (.new _ _ _) _

/-- The route `/a/:id` is listed. -/
theorem route_listed : Lists anyName (routeOf (ascii "/a/:id")).trie.toTrieData
    (routeOf (ascii "/a/:id")).stat := by
  refine (stat_lists_iff (routeOf_built _)).mpr fun c method hreg ls hls l hl => ?_
  obtain ⟨n, hn, -⟩ := hreg
  have hlt : c < 3 := lt_of_node? hn
  have hpatterns : ∀ c < 3, ∀ ls ∈ patternOf (routeOf (ascii "/a/:id")).trie.toTrieData c,
      ∀ l ∈ ls, l.title ≠ [] := by decide
  exact hpatterns c hlt ls hls l hl

/-- The route `/` is registered at the child under the empty key, and the listing is empty. -/
theorem slash_not_listed : Built anyName (routeOf (ascii "/")) ∧
    ¬ Lists anyName (routeOf (ascii "/")).trie.toTrieData (routeOf (ascii "/")).stat := by
  refine ⟨routeOf_built _, ?_⟩
  have hstat : (routeOf (ascii "/")).stat = [] := by decide
  rintro ⟨routes, -, hroutes, entries, hperm, hall⟩
  rw [hstat] at hperm
  obtain rfl := hperm.nil_eq
  have hnil : routes = [] := List.forall₂_nil_right_iff.mp hall
  have hreg : Registered (routeOf (ascii "/")).trie.toTrieData 1 (ascii "GET") :=
    ⟨_, rfl, rfl, rfl⟩
  have hmem := (hroutes 1 (ascii "GET")).mpr hreg
  rw [hnil] at hmem
  cases hmem

end ArchNet.Routing
