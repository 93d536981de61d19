import ArchNet.TrieShape
import ArchNet.Dispatch
import ArchNet.RouteGroup

/-!
# Listing the Routes

`Trie::walk_trie` of `http/trie.cc`: the nodes that the recursion comes to, and what it lists for
each of them.

## Conventions

The recursion goes down along the links. It is given as many steps as the trie has nodes, and no
chain of links is longer (`mem_visits`). `handlers` is an `unordered_map`: the order in which its
entries are gone through is not said, and what follows does not depend on it (`Lists.perm`).

## Main definitions

* `walkFrom`, `walkTrie`: the code.
* `visits`: the nodes that are listed where they are endpoints, each with its path.
* `Listable`: what the listing relies on.

## Main results

* `walkFrom_eq`: the walk lists the handlers of the visited endpoints.
* `mem_visits`, `nodup_visits`: **every linked node is visited once, but those under an empty key**.
* `Built.listable`: the routers that registrations build are listable.
-/

open Bytes

namespace ArchNet.Routing

variable {M ρ : Type}

/-! ### The code -/

/-- The entries of an endpoint. -/
def entriesAt (n : Node M) (path : Text) : List (Text × Text) :=
  if n.endpoint then n.handlers.map fun it => (it.1, path) else []

/-- `recursive` in `walk_trie`. -/
def walkFrom (t : TrieData M) : ℕ → Text → ℕ → List (Text × Text)
  | 0, _, _ => []
  | steps + 1, front, p =>
      let node := t.deref p
      (if node.isRoot then entriesAt node (ascii "/") else []) ++
      (match node.colonChild with
        | none => []
        | some c =>
            let path := front ++ ascii "/:" ++ (t.deref c).name
            entriesAt (t.deref c) path ++ walkFrom t steps path c) ++
      node.children.flatMap fun nh =>
        let path := front ++ ascii "/" ++ nh.key
        (if nh.key = [] then [] else entriesAt (t.deref nh.val) path) ++
          walkFrom t steps path nh.val

/-- `walk_trie`. -/
def walkTrie (t : TrieData M) : List (Text × Text) := walkFrom t t.nodes.length [] 0

/-! ### The nodes that are visited -/

/-- A label as a path shows it: without its constraint. -/
def Label.word : Label → Text
  | literal key => key
  | param name _ => 58 :: name

/-- The path of a pattern. -/
def pathText (ls : List Label) : Text := ls.flatMap fun l => slash :: l.word

/-- The children of a node, the parameter child in front. -/
def kids (t : TrieData M) (p : ℕ) : List (ℕ × Label) :=
  (t.deref p).colonChild.toList.map (fun c => (c, .param (t.deref c).name (t.deref c).regex)) ++
    (t.deref p).children.map fun nh => (nh.val, .literal nh.key)

/-- The nodes below a node whose handlers are listed, with their paths. A child under an empty key
is passed by. -/
def visits (t : TrieData M) : ℕ → Text → ℕ → List (ℕ × Text)
  | 0, _, _ => []
  | steps + 1, front, p => (kids t p).flatMap fun k =>
      (if k.2 = .literal [] then [] else [(k.1, front ++ slash :: k.2.word)]) ++
        visits t steps (front ++ slash :: k.2.word) k.1

/-- A text that a pattern keeps whole: no slash and no space in it. -/
def Clean (s : Text) : Prop := ∀ c ∈ s, c ≠ slash ∧ isspace c = false

/-- A name of a parameter that is read as it is written. -/
structure ReadBack (env : Env) (segmentPattern name : Text) : Prop where
  clean : Clean name
  accepted : env.regexMatch name segmentPattern = true
  parts : name ≠ [] → colonParts (58 :: name) = .ok (name, [])

/-- **What the listing relies on**: names that are written as they were read, endpoints that links
lead to, none of them the root, and handlers under different methods. -/
structure Listable (env : Env) (t : TrieData M) : Prop where
  key : ∀ {i n}, t.node? i = some n → ∀ h ∈ n.children, Clean h.key
  name : ∀ {i n c}, t.node? i = some n → n.colonChild = some c →
    ReadBack env t.segmentPattern (t.deref c).name
  root : ∀ {i n}, t.node? i = some n → n.isRoot = true → i = 0
  endpoint : ∀ {i n}, t.node? i = some n → n.endpoint = true → i ≠ 0 ∧ ∃ l, PathTo t i l
  methods : ∀ {i n}, t.node? i = some n → (n.handlers.map Prod.fst).Nodup
  handlers : ∀ {i n}, t.node? i = some n → ∀ e ∈ n.handlers, e.2 ≠ []

section Visits

variable {env : Env} {t : TrieData M} {n : Node M} {p c steps : ℕ} {l : Label} {ls ls' : List Label}
  {front path : Text}

theorem mem_kids (ht : t.Ok) : (c, l) ∈ kids t p ↔ Child t p c ∧ labelBelow t p c = l := by
  cases hn : t.node? p with
  | none => simp [kids, Child, TrieData.deref, hn]
  | some n =>
      have hmem : (c, l) ∈ kids t p ↔ (n.colonChild = some c ∧
          Label.param (t.deref c).name (t.deref c).regex = l) ∨
            ∃ key, (⟨key, c⟩ : NodeHolder) ∈ n.children ∧ Label.literal key = l := by
        rw [kids, deref_eq hn, List.mem_append, List.mem_map, List.mem_map]
        refine or_congr ?_ ?_
        · constructor
          · rintro ⟨d, hd, heq⟩
            obtain ⟨rfl, rfl⟩ := Prod.ext_iff.mp heq
            exact ⟨by simpa using hd, rfl⟩
          · rintro ⟨hc, rfl⟩
            exact ⟨c, by simp [hc], rfl⟩
        · constructor
          · rintro ⟨h, hh, heq⟩
            obtain ⟨rfl, rfl⟩ := Prod.ext_iff.mp heq
            exact ⟨h.key, hh, rfl⟩
          · rintro ⟨key, hmem, rfl⟩
            exact ⟨_, hmem, rfl⟩
      rw [hmem]
      constructor
      · rintro (⟨hcolon, rfl⟩ | ⟨key, hkey, rfl⟩)
        · exact ⟨by rw [Child, deref_eq hn]; exact .inl hcolon, labelBelow_param ht hn hcolon⟩
        · refine ⟨?_, (labelBelow_literal_iff ht hn).mpr hkey⟩
          rw [Child, deref_eq hn]
          exact .inr (List.mem_map.mpr ⟨_, hkey, rfl⟩)
      · rintro ⟨hlink, hlabel⟩
        cases l with
        | literal key => exact .inr ⟨key, (labelBelow_literal_iff ht hn).mp hlabel, rfl⟩
        | param name regex =>
            have hcolon := colonChild_of_label ht hn hlink hlabel
            exact .inl ⟨hcolon, (labelBelow_param ht hn hcolon).symm.trans hlabel⟩

/-- No two links lead to one child. -/
theorem kids_nodup (ht : t.Ok) : ((kids t p).map Prod.fst).Nodup := by
  have hkids : (kids t p).map Prod.fst =
      (t.deref p).colonChild.toList ++ (t.deref p).children.map NodeHolder.val := by
    rw [kids, List.map_append, List.map_map, List.map_map]
    exact congrArg (· ++ _) (List.map_id _)
  rw [hkids]
  cases hn : t.node? p with
  | none => simp [TrieData.deref, hn]
  | some n =>
      rw [deref_eq hn]
      exact (ht.linked hn).links

/-- **The walk lists the handlers of the visited endpoints.** -/
theorem walkFrom_eq (h : Listable env t) : walkFrom t steps front p =
    (visits t steps front p).flatMap fun v => entriesAt (t.deref v.1) v.2 := by
  induction steps generalizing front p with
  | zero => rfl
  | succ steps ih =>
      -- the root is no endpoint
      have hroot : (if (t.deref p).isRoot then entriesAt (t.deref p) (ascii "/") else []) = [] := by
        split_ifs with hp
        · cases hn : t.node? p with
          | none =>
              rw [TrieData.deref, hn] at hp
              cases hp
          | some n =>
              rw [deref_eq hn] at hp ⊢
              rw [entriesAt, if_neg]
              exact fun hend => (h.endpoint hn hend).1 (h.root hn hp)
        · rfl
      have hkid : ∀ k : ℕ × Label,
          ((if k.2 = .literal [] then [] else [(k.1, front ++ slash :: k.2.word)]) ++
            visits t steps (front ++ slash :: k.2.word) k.1).flatMap
              (fun v => entriesAt (t.deref v.1) v.2) =
          (if k.2 = .literal [] then []
            else entriesAt (t.deref k.1) (front ++ slash :: k.2.word)) ++
            walkFrom t steps (front ++ slash :: k.2.word) k.1 := by
        intro k
        rw [List.flatMap_append, ← ih]
        split_ifs
        · rfl
        · rw [List.flatMap_singleton]
      rw [walkFrom, visits]
      dsimp only
      rw [hroot, List.nil_append, List.flatMap_assoc]
      simp only [hkid]
      rw [kids, List.flatMap_append, List.flatMap_map, List.flatMap_map]
      congr 1
      · cases (t.deref p).colonChild with
        | none => rfl
        | some c => simp [Label.word, ascii, slash]
      · simp [Label.word, ascii, slash]

theorem pathText_snoc (ls : List Label) (l : Label) :
    pathText (ls ++ [l]) = pathText ls ++ slash :: l.word := by
  rw [pathText, List.flatMap_append, List.flatMap_singleton]
  rfl

/-- One step down: fewer steps are needed. -/
theorem At.kid (ht : t.Ok) (hp : At t p ls) (hsteps : t.nodes.length ≤ p + (steps + 1))
    (hk : (c, l) ∈ kids t p) : At t c (ls ++ [l]) ∧ t.nodes.length ≤ c + steps := by
  obtain ⟨hlink, rfl⟩ := (mem_kids ht).mp hk
  obtain ⟨d, hd, hparent⟩ := hlink.parent ht
  have hc : c ≠ 0 := by
    rintro rfl
    exact not_child_root ht hlink
  obtain ⟨q, hq, hlt⟩ := ht.parent hd hc
  obtain rfl := Option.some.inj (hparent.symm.trans hq)
  exact ⟨.child hp hlink, by omega⟩

/-- **The visited nodes** are those that links lead to, but for children under an empty key. -/
theorem mem_visits (ht : t.Ok) (hp : At t p ls) (hsteps : t.nodes.length ≤ p + steps) :
    (c, path) ∈ visits t steps (pathText ls) p ↔ ∃ ls' l, At t c (ls ++ ls' ++ [l]) ∧
      l ≠ .literal [] ∧ path = pathText (ls ++ ls' ++ [l]) := by
  induction steps generalizing p ls path with
  | zero =>
      obtain ⟨n, hn⟩ := (hp.hasPattern ht).node ht
      exact absurd (lt_of_node? hn) (by omega)
  | succ steps ih =>
      rw [visits, List.mem_flatMap]
      constructor
      · rintro ⟨⟨d, l'⟩, hk, hmem⟩
        obtain ⟨hd, hle⟩ := hp.kid ht hsteps hk
        rw [List.mem_append, ← pathText_snoc, ih hd hle] at hmem
        rcases hmem with hmem | ⟨ls', l, hc, hl, rfl⟩
        · split_ifs at hmem with hempty
          · cases hmem
          · obtain ⟨hcd, hpath⟩ := Prod.ext_iff.mp (List.mem_singleton.mp hmem)
            dsimp only at hcd hpath
            subst hcd
            exact ⟨[], l', by rwa [List.append_nil], hempty, by rw [List.append_nil, hpath]⟩
        · refine ⟨l' :: ls', l, ?_, hl, ?_⟩
          · rwa [List.append_cons ls l' ls']
          · rw [List.append_cons ls l' ls']
      · rintro ⟨ls', l, hc, hl, rfl⟩
        cases ls' with
        | nil =>
            rw [List.append_nil] at hc ⊢
            obtain ⟨q, hq, hlink, hlabel⟩ := hc.last
            obtain rfl := hp.eq ht hq
            refine ⟨(c, l), (mem_kids ht).mpr ⟨hlink, hlabel⟩, List.mem_append_left _ ?_⟩
            rw [if_neg hl, pathText_snoc]
            exact List.mem_singleton_self _
        | cons l' ls' =>
            rw [List.append_cons ls l' ls'] at hc ⊢
            obtain ⟨d, hd⟩ := (List.append_assoc .. ▸ hc).front
            obtain ⟨q, hq, hlink, hlabel⟩ := hd.last
            obtain rfl := hp.eq ht hq
            have hk : (d, l') ∈ kids t p := (mem_kids ht).mpr ⟨hlink, hlabel⟩
            refine ⟨(d, l'), hk, List.mem_append_right _ ?_⟩
            rw [← pathText_snoc, ih hd (hp.kid ht hsteps hk).2]
            exact ⟨ls', l, hc, hl, rfl⟩

/-- What is visited in the part of a child lies at the child or below it. -/
theorem at_of_mem_part (ht : t.Ok) (hp : At t p ls) (hsteps : t.nodes.length ≤ p + (steps + 1))
    {k : ℕ × Label} (hk : k ∈ kids t p)
    (hmem : (c, path) ∈ (if k.2 = .literal [] then []
      else [(k.1, pathText ls ++ slash :: k.2.word)]) ++
        visits t steps (pathText ls ++ slash :: k.2.word) k.1) :
    ∃ ls', At t c (ls ++ [k.2] ++ ls') := by
  obtain ⟨d, l⟩ := k
  obtain ⟨hd, hle⟩ := hp.kid ht hsteps hk
  rw [List.mem_append, ← pathText_snoc, mem_visits ht hd hle] at hmem
  rcases hmem with hmem | ⟨ls', l', hc, -⟩
  · split_ifs at hmem
    · cases hmem
    · obtain ⟨rfl, -⟩ := Prod.ext_iff.mp (List.mem_singleton.mp hmem)
      exact ⟨[], by rwa [List.append_nil]⟩
  · exact ⟨ls' ++ [l'], by rwa [← List.append_assoc]⟩

/-- **No node is visited twice.** -/
theorem nodup_visits (ht : t.Ok) (hp : At t p ls) (hsteps : t.nodes.length ≤ p + steps) :
    ((visits t steps (pathText ls) p).map Prod.fst).Nodup := by
  induction steps generalizing p ls with
  | zero => exact List.nodup_nil
  | succ steps ih =>
      rw [visits, List.map_flatMap, List.nodup_flatMap]
      constructor
      · rintro ⟨d, l⟩ hk
        obtain ⟨hd, hle⟩ := hp.kid ht hsteps hk
        rw [List.map_append, ← pathText_snoc]
        split_ifs
        · exact ih hd hle
        · refine List.nodup_cons.mpr ⟨fun hmem => ?_, ih hd hle⟩
          -- the child does not lie below itself
          obtain ⟨⟨c, path⟩, hv, rfl⟩ := List.mem_map.mp hmem
          obtain ⟨ls', l', hc, -⟩ := (mem_visits ht hd hle).mp hv
          have heq := congrArg List.length ((hd.hasPattern ht).eq ht (hc.hasPattern ht))
          simp at heq
      · have hdiff : (kids t p).Pairwise fun k k' => k.1 ≠ k'.1 :=
          List.pairwise_map.mp (kids_nodup ht)
        refine hdiff.imp_of_mem fun {k k'} hk hk' hne => ?_
        refine List.disjoint_left.mpr fun {c} hc hc' => ?_
        obtain ⟨⟨c, path⟩, hv, rfl⟩ := List.mem_map.mp hc
        obtain ⟨⟨c', path'⟩, hv', hcc⟩ := List.mem_map.mp hc'
        dsimp only at hcc
        subst hcc
        obtain ⟨ls', hat⟩ := at_of_mem_part ht hp hsteps hk hv
        obtain ⟨ls'', hat'⟩ := at_of_mem_part ht hp hsteps hk' hv'
        have heq := (hat.hasPattern ht).eq ht (hat'.hasPattern ht)
        rw [List.append_assoc, List.append_assoc, List.append_cancel_left_eq] at heq
        obtain ⟨hlabel, -⟩ := List.cons.inj heq
        obtain ⟨hlink, hl⟩ := (mem_kids ht).mp hk
        obtain ⟨hlink', hl'⟩ := (mem_kids ht).mp hk'
        exact hne (eq_of_labelBelow ht hlink hlink' (hl.trans (hlabel.trans hl'.symm)))

end Visits

/-! ### What the listing relies on -/

section Listable

variable {env : Env} {t t' : TrieData M} {n fresh : Node M} {p c : ℕ} {f : Node M → Node M}
  {segment : Text} {l : Label} {r : Except Failure ℕ}

/-- What a write keeps, **wherever it is made**. -/
theorem kept_of_write {β : Type*} (g : Node M → β) (hg : ∀ m, g (f m) = g m) (q : Prop)
    [Decidable q] (m : Node M) : g (if q then f m else m) = g m := by
  rw [apply_ite g, hg, ite_self]

/-- A path stays where the links stay. -/
theorem PathTo.modify (hf : ∀ m : Node M, (f m).children = m.children ∧
    (f m).colonChild = m.colonChild) {i : ℕ} {nodes : List ℕ} (h : PathTo t i nodes) :
    PathTo (t.modify c f) i nodes := by
  obtain ⟨more, hnodes, hchain, hlast⟩ := h
  refine ⟨more, hnodes, hchain.imp fun q d hlink => ?_, hlast⟩
  cases hq : t.node? q with
  | none => simp [Child, TrieData.deref, hq] at hlink
  | some m =>
      have hq' : (t.modify c f).node? q = some (if c = q then f m else m) := by
        rw [node?_modify, hq, Option.map_some]
      rw [Child, deref_eq hq] at hlink
      rwa [Child, deref_eq hq', kept_of_write Node.children fun m => (hf m).1,
        kept_of_write Node.colonChild fun m => (hf m).2]

/-- A write that keeps the links and the names. -/
theorem Listable.modify (h : Listable env t)
    (hf : ∀ m : Node M, (f m).children = m.children ∧ (f m).colonChild = m.colonChild)
    (hsame : ∀ m : Node M, (f m).name = m.name ∧ (f m).isRoot = m.isRoot)
    (hend : ∀ m, t.node? c = some m → (f m).endpoint = true → c ≠ 0 ∧ ∃ l, PathTo t c l)
    (hmethods : ∀ m, t.node? c = some m → ((f m).handlers.map Prod.fst).Nodup)
    (hhandlers : ∀ m, t.node? c = some m → ∀ e ∈ (f m).handlers, e.2 ≠ []) :
    Listable env (t.modify c f) := by
  have hold : ∀ {i m'}, (t.modify c f).node? i = some m' →
      ∃ m, t.node? i = some m ∧ m' = if c = i then f m else m := by
    intro i m' hm'
    rw [node?_modify, Option.map_eq_some_iff] at hm'
    obtain ⟨m, hm, rfl⟩ := hm'
    exact ⟨m, hm, rfl⟩
  have hname : ∀ d, ((t.modify c f).deref d).name = (t.deref d).name := by
    intro d
    rw [TrieData.deref, TrieData.deref, node?_modify]
    cases t.node? d with
    | none => rfl
    | some m =>
        rw [Option.map_some, Option.getD_some, Option.getD_some]
        exact kept_of_write Node.name (fun m => (hsame m).1) _ m
  refine ⟨fun {i m'} hm' => ?_, fun {i m' d} hm' hd => ?_, fun {i m'} hm' hroot => ?_,
    fun {i m'} hm' hm'end => ?_, fun {i m'} hm' => ?_, fun {i m'} hm' => ?_⟩
  all_goals obtain ⟨m, hm, rfl⟩ := hold hm'
  · rw [kept_of_write Node.children fun m => (hf m).1]
    exact h.key hm
  · rw [kept_of_write Node.colonChild fun m => (hf m).2] at hd
    rw [hname]
    exact h.name hm hd
  · rw [kept_of_write Node.isRoot fun m => (hsame m).2] at hroot
    exact h.root hm hroot
  · have hpath : i ≠ 0 ∧ ∃ l, PathTo t i l := by
      split_ifs at hm'end with hci
      · subst hci
        exact hend m hm hm'end
      · exact h.endpoint hm hm'end
    obtain ⟨hi, nodes, hnodes⟩ := hpath
    exact ⟨hi, nodes, hnodes.modify hf⟩
  · split_ifs with hci
    · exact hmethods m (hci ▸ hm)
    · exact h.methods hm
  · split_ifs with hci
    · exact hhandlers m (hci ▸ hm)
    · exact h.handlers hm

/-- One more node, with or without a link to it. -/
theorem Listable.push (h : Listable env t) (ht : t.Ok) (hn : t.node? p = some n)
    (hlinks : fresh.children = [] ∧ fresh.colonChild = none)
    (hblank : fresh.isRoot = false ∧ fresh.endpoint = false ∧ fresh.handlers = [])
    (hf : ∀ m : Node M, (f m).isRoot = m.isRoot ∧ (f m).endpoint = m.endpoint ∧
      (f m).handlers = m.handlers)
    (hg : n.Grows (f n))
    (hkey : ∀ e ∈ (f n).children, e ∈ n.children ∨ Clean e.key)
    (hname : ∀ d, (f n).colonChild = some d → n.colonChild = some d ∨
      d = t.nodes.length ∧ ReadBack env t.segmentPattern fresh.name) :
    Listable env ((t.push fresh).modify p f) := by
  have hgrows : t.Grows ((t.push fresh).modify p f) :=
    grows_push.trans (grows_modify fun m hm => by
      rw [node?_push, if_neg (lt_of_node? hn).ne, hn] at hm
      exact Option.some.inj hm ▸ hg)
  refine ⟨fun {i m'} hm' => ?_, fun {i m' d} hm' hd => ?_, fun {i m'} hm' hroot => ?_,
    fun {i m'} hm' hend => ?_, fun {i m'} hm' => ?_, fun {i m'} hm' => ?_⟩
  all_goals obtain ⟨rfl, rfl⟩ | ⟨m, hm, rfl⟩ := node?_pushed_cases hn hm'
  · simp [hlinks.1]
  · split_ifs with hi
    · subst hi
      obtain rfl := Option.some.inj (hn.symm.trans hm)
      exact fun e he => (hkey e he).elim (h.key hm e) id
    · exact h.key hm
  · rw [hlinks.2] at hd
    cases hd
  · have hold : m.colonChild = some d ∨
        d = t.nodes.length ∧ ReadBack env t.segmentPattern fresh.name := by
      split_ifs at hd with hi
      · subst hi
        obtain rfl := Option.some.inj (hn.symm.trans hm)
        exact hname d hd
      · exact .inl hd
    rcases hold with hold | ⟨rfl, hfresh⟩
    · obtain ⟨k, hk, -⟩ := (ht.linked hm).colon d hold
      obtain ⟨k', hk', hgrow⟩ := hgrows.node hk
      rw [deref_eq hk', hgrow.name, ← deref_eq hk]
      exact h.name hm hold
    · have hnew : ((t.push fresh).modify p f).node? t.nodes.length = some fresh := by
        rw [node?_modify, node?_push, if_pos rfl, Option.map_some, if_neg (lt_of_node? hn).ne]
      rwa [deref_eq hnew]
  · rw [hblank.1] at hroot
    cases hroot
  · rw [kept_of_write Node.isRoot fun m => (hf m).1] at hroot
    exact h.root hm hroot
  · rw [hblank.2.1] at hend
    cases hend
  · rw [kept_of_write Node.endpoint fun m => (hf m).2.1] at hend
    obtain ⟨hi, nodes, hnodes⟩ := h.endpoint hm hend
    exact ⟨hi, nodes, hnodes.grows hgrows⟩
  · simp [hblank.2.2]
  · rw [kept_of_write Node.handlers fun m => (hf m).2.2]
    exact h.methods hm
  · simp [hblank.2.2]
  · rw [kept_of_write Node.handlers fun m => (hf m).2.2]
    exact h.handlers hm

theorem Clean.mono {s s' : Text} (h : Clean s) (hsub : s' ⊆ s) : Clean s' :=
  fun c hc => h c (hsub hc)

theorem fragOf_subset (segment : Text) : fragOf segment ⊆ segment := by
  rw [fragOf]
  split_ifs
  · exact List.nil_subset _
  · exact List.Subset.refl _

/-- **A label is made of a name that is read as it is written.** -/
theorem readBack_of_labelOf {segmentPattern name regex : Text} (hclean : Clean segment)
    (h : env.labelOf segmentPattern segment = some (.param name regex)) :
    ReadBack env segmentPattern name := by
  have hfrag := hclean.mono (fragOf_subset segment)
  rw [Env.labelOf] at h
  split_ifs at h with hempty hhead
  · cases h
  split at h
  · cases h
  rename_i name' regex' hparts
  split_ifs at h with haccepted
  obtain ⟨rfl, rfl⟩ := Label.param.inj (Option.some.inj h)
  rw [colonParts] at hparts
  dsimp only at hparts
  split at hparts
  · cases hparts
  rename_i trailing htrailing
  split_ifs at hparts with hregex hnone
  · -- what stands in front of the first parenthesis has none
    obtain ⟨rfl, -⟩ := Prod.ext_iff.mp (Except.ok.inj hparts)
    refine ⟨hfrag.mono (List.Subset.trans (List.take_subset _ _) (List.drop_subset 1 _)), haccepted,
      fun hne => ?_⟩
    have hfree : (40 : UInt8) ∉ ((fragOf segment).drop 1).take
        (((fragOf segment).drop 1).idxOf 40) := by
      rw [List.mem_take_iff_idxOf_lt hregex.2]
      exact lt_irrefl _
    generalize ((fragOf segment).drop 1).take (((fragOf segment).drop 1).idxOf 40) = name
      at hne hfree
    rw [colonParts]
    dsimp only
    rw [List.drop_one, List.tail_cons]
    cases hlast : name.getLast? with
    | none => exact absurd (List.getLast?_eq_none_iff.mp hlast) hne
    | some last => exact if_neg fun hand => hfree hand.2
  · obtain ⟨rfl, -⟩ := Prod.ext_iff.mp (Except.ok.inj hparts)
    refine ⟨hfrag.mono (List.drop_subset 1 _), haccepted, fun hne => ?_⟩
    rw [colonParts]
    dsimp only
    rw [List.drop_one, List.tail_cons, htrailing]
    exact if_neg hregex
  · cases h

theorem clean_of_labelOf {segmentPattern key : Text} (hclean : Clean segment)
    (h : env.labelOf segmentPattern segment = some (.literal key)) : Clean key := by
  have hlabel := ofSegment_of_labelOf h
  rw [Label.ofSegment] at hlabel
  split_ifs at hlabel with hhead
  · split at hlabel <;> cases hlabel
  · obtain rfl := Label.literal.inj (Option.some.inj hlabel)
    exact hclean.mono (fragOf_subset segment)

/-- **One segment**, whether it is refused or not. -/
theorem Listable.getOrNewNode (h : Listable env t) (ht : t.Ok) (hn : t.node? p = some n)
    (hclean : Clean segment) (hr : t.getOrNewNode env p n segment = (t', r)) :
    Listable env t' := by
  rcases getOrNewNode_cases ht hn hr with ⟨rfl, -⟩ | ⟨name, regex, rfl, -⟩ | ⟨l, hl, hfree, -, rfl⟩
  · exact h
  · have hid : t.push (freshNode M env t.counter p name regex) =
        (t.push (freshNode M env t.counter p name regex)).modify p id := by
      rw [TrieData.modify, List.modify_id]
    rw [hid]
    exact h.push ht hn ⟨rfl, rfl⟩ ⟨rfl, rfl, rfl⟩ (fun _ => ⟨rfl, rfl, rfl⟩) (.refl n)
      (fun _ he => .inl he) (fun _ hd => .inl hd)
  · have hgrow : n.Grows (l.link t.nodes.length n) := by
      cases l with
      | literal key =>
          exact ⟨rfl, rfl, rfl, rfl, List.prefix_append .., fun _ h => h, fun h => h,
            List.prefix_rfl, fun _ _ h _ => h⟩
      | param name regex =>
          rw [Label.free, Option.isNone_iff_eq_none] at hfree
          exact ⟨rfl, rfl, rfl, rfl, List.prefix_rfl, fun c hc => by simp [hfree] at hc, fun h => h,
            List.prefix_rfl, fun _ _ h _ => h⟩
    refine h.push ht hn ⟨rfl, rfl⟩ ⟨rfl, rfl, rfl⟩ (fun m => ?_) hgrow (fun e he => ?_)
      (fun d hd => ?_)
    · cases l <;> exact ⟨rfl, rfl, rfl⟩
    · cases l with
      | literal key =>
          rw [Label.link, List.mem_append, List.mem_singleton] at he
          refine he.imp_right ?_
          rintro rfl
          exact clean_of_labelOf hclean hl
      | param name regex => exact .inl he
    · cases l with
      | literal key => exact .inl hd
      | param name regex =>
          exact .inr ⟨(Option.some.inj hd).symm, readBack_of_labelOf hclean hl⟩

/-- **The segments of a pattern**, whether one of them is refused or not. -/
theorem Listable.insertNode {nodes : List ℕ} {frag : Text} {frags : List Text}
    (h : Listable env t) (ht : t.Ok) (hpath : PathTo t p nodes)
    (hclean : ∀ s ∈ frag :: frags, Clean s) : Listable env (t.insertNode env p frag frags).1 := by
  obtain ⟨n, hn⟩ := hpath.node ht
  induction frags generalizing t p n frag nodes with
  | nil =>
      have hstep : t.Inserts (t.getOrNewNode env p n frag) _ := getOrNewNode_inserts ht hn frag
      rw [TrieData.insertNode, hn]
      dsimp only
      cases hr : t.getOrNewNode env p n frag with
      | mk t' r =>
          rw [hr] at hstep
          have h' := h.getOrNewNode ht hn (hclean frag (by simp)) hr
          cases r with
          | error e => exact h'
          | ok c =>
              have hlink := child_of_entry (hstep.result c rfl)
              refine h'.modify (fun _ => ⟨rfl, rfl⟩) (fun _ => ⟨rfl, rfl⟩) (fun m hm _ => ?_)
                (fun m hm => h'.methods (n := m) hm) (fun m hm => h'.handlers (n := m) hm)
              refine ⟨?_, _, (hpath.grows hstep.grows).snoc hlink⟩
              rintro rfl
              exact not_child_root hstep.ok hlink
  | cons next frags ih =>
      have hstep : t.Inserts (t.getOrNewNode env p n frag) _ := getOrNewNode_inserts ht hn frag
      rw [TrieData.insertNode, hn]
      dsimp only
      cases hr : t.getOrNewNode env p n frag with
      | mk t' r =>
          rw [hr] at hstep
          have h' := h.getOrNewNode ht hn (hclean frag (by simp)) hr
          cases r with
          | error e => exact h'
          | ok c =>
              have hentry := hstep.result c rfl
              obtain ⟨m, hm, -⟩ := hentry.child hstep.ok
              exact ih h' hstep.ok ((hpath.grows hstep.grows).snoc (child_of_entry hentry))
                (fun s hs => hclean s (List.mem_cons_of_mem _ hs)) m hm

/-- The segments of a pattern have no slash and no space. -/
theorem clean_of_mem_segmentsOf {pattern : Text} (h : segment ∈ segmentsOf pattern) :
    Clean segment := by
  intro c hc
  constructor
  · rintro rfl
    exact not_mem_of_mem_stringSplit h hc
  · have hmem := (List.dropWhile_suffix _).subset (subset_of_mem_stringSplit h hc)
    simpa using List.of_mem_filter hmem

/-- **A pattern**, whether it is refused or not. -/
theorem Listable.addNode (h : Listable env t) (ht : t.Ok) (pattern : Text) :
    Listable env (t.addNode env pattern).1 := by
  rw [TrieData.addNode]
  split_ifs with hslashes
  · exact h
  cases hsplit : stringSplit slash (trimPrefixSlash (trimPathSpaces pattern)) with
  | nil => exact absurd hsplit (stringSplit_ne_nil _ _)
  | cons frag frags =>
      obtain ⟨r, hr, -⟩ := ht.root
      have hins : t.Inserts (t.insertNode env 0 frag frags) _ := insertNode_inserts ht hr frag frags
      have hclean : ∀ s ∈ frag :: frags, Clean s := fun s hs =>
        clean_of_mem_segmentsOf (hsplit.symm ▸ hs)
      have h' := h.insertNode ht pathTo_root hclean
      dsimp only
      cases hresult : t.insertNode env 0 frag frags with
      | mk t' r =>
          rw [hresult] at h' hins
          cases r with
          | error e => exact h'
          | ok c =>
              have hsame : ∀ m : Node M, (if m.pattern = [] then
                  { m with pattern := trimPathSpaces pattern } else m) =
                { m with pattern := if m.pattern = [] then trimPathSpaces pattern
                  else m.pattern } := by
                intro m
                split_ifs <;> rfl
              simp only [hsame]
              exact h'.modify (fun _ => ⟨rfl, rfl⟩) (fun _ => ⟨rfl, rfl⟩)
                (fun m hm hend => h'.endpoint (n := m) hm hend)
                (fun m hm => h'.methods (n := m) hm) (fun m hm => h'.handlers (n := m) hm)

/-- The empty trie. -/
theorem new_listable (strictRoute : Bool) (segmentPattern : Text) (maxFallbackDepth : ℤ) :
    Listable env (TrieData.new (M := M) env strictRoute segmentPattern maxFallbackDepth) := by
  have hnode : ∀ {i} {n : Node M},
      (TrieData.new env strictRoute segmentPattern maxFallbackDepth).node? i = some n →
        i = 0 ∧ n = { id := ascii "root_" ++ env.randomStr 0, isRoot := true } := by
    intro i n hn
    cases i with
    | zero => exact ⟨rfl, (Option.some.inj hn).symm⟩
    | succ i => cases hn
  refine ⟨fun hn => ?_, fun hn hc => ?_, fun hn _ => (hnode hn).1, fun hn hend => ?_, fun hn => ?_,
    fun hn => ?_⟩
  all_goals obtain ⟨rfl, rfl⟩ := hnode hn
  · simp
  · cases hc
  · cases hend
  · exact List.nodup_nil
  · simp

theorem Listable.use (h : Listable env t) (p : ℕ) (ms : List M) : Listable env (t.use p ms) :=
  h.modify (fun _ => ⟨rfl, rfl⟩) (fun _ => ⟨rfl, rfl⟩) (fun m hm => h.endpoint (n := m) hm)
    (fun m hm => h.methods (n := m) hm) (fun m hm => h.handlers (n := m) hm)

/-- The handlers of a method are set at one entry. -/
theorem Listable.handle (h : Listable env t) (p : ℕ) (method : Text) (ms : List M) :
    Listable env (t.handle p method ms).1 := by
  rw [TrieData.handle]
  split_ifs
  · exact h
  · exact h
  refine h.modify (fun _ => ⟨rfl, rfl⟩) (fun _ => ⟨rfl, rfl⟩) (fun m hm => h.endpoint (n := m) hm)
    (fun m hm => ?_) (fun m hm e he => ?_)
  · dsimp only
    rw [setHandlers]
    split_ifs
    · exact h.methods hm
    · rw [List.map_cons, List.nodup_cons]
      refine ⟨fun hmem => ?_, (h.methods hm).sublist ((List.filter_sublist).map _)⟩
      obtain ⟨e, he, heq⟩ := List.mem_map.mp hmem
      simpa [heq] using List.of_mem_filter he
  · dsimp only at he
    rw [setHandlers] at he
    split_ifs at he with hnil
    · exact h.handlers hm e he
    · rcases List.mem_cons.mp he with rfl | he
      · exact fun heq => hnil (List.append_eq_nil_iff.mp heq).2
      · exact h.handlers hm e (List.mem_of_mem_filter he)

/-- **The routers that registrations build are listable.** -/
theorem Built.listable {r : Router ρ} (h : Built env r) : Listable env r.trie.toTrieData := by
  induction h with
  | new strictRoute segmentPattern maxFallbackDepth => exact new_listable _ _ _
  | @register r _ reg ih =>
      have hadd : ∀ path, Listable env (r.trie.addNode env path).1.toTrieData :=
        ih.addNode r.trie.ok
      cases reg with
      | use path ms =>
          rw [Router.register, Router.use]
          split_ifs
          · exact ih.use 0 ms
          · have hpath := hadd path
            cases hres : r.trie.addNode env path with
            | mk t res =>
                rw [hres] at hpath
                cases res with
                | error e => exact hpath
                | ok p => exact hpath.use p ms
      | initBasicMethod method path hs =>
          have hpath := hadd path
          rw [Router.register, Router.initBasicMethod]
          cases hres : r.trie.addNode env path with
          | mk t res =>
              rw [hres] at hpath
              cases res with
              | error e => exact hpath
              | ok p => exact hpath.handle p method _

end Listable

end ArchNet.Routing
