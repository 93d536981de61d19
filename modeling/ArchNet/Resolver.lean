import ArchNet.Lts
import ArchNet.ServerOrder

/-!
# Resolvers

`DNSResolver` and `FixedListResolver` of `resolver.h`: where the servers of a client come from, and
the balancer that chooses between them.

## Conventions

* `getaddrinfo` and `std::sort` are parameters, with the rest of the code outside (`Env`). A lookup
  that fails has no answers.
* `port` is not set where the name of a service has no port; what the variable holds is a parameter.
* `none` stands for undefined behaviour.

## Main results

* `getNext_safe_iff`: **when `get_next` is safe**, in every state of a resolver.
* `resolve_order_iff`: when servers are ordered, and when their order does not depend on the answer.
-/

open Bytes

namespace ArchNet

open Routing (Text cstr)

/-! ### The code -/

/-- `ToIP(s)`. -/
def Net.toIP (inet : Net.Inet) (ss : SockAddr) : Text :=
  if Net.family ss = Net.Family.inet.number then inet.ntop .inet (Net.addressOf .inet ss)
  else if Net.family ss = Net.Family.inet6.number then inet.ntop .inet6 (Net.addressOf .inet6 ss)
  else []

/-- `dns_resolve(host_name, addrs)` of no addresses. -/
def Net.dnsResolve (inet : Net.Inet) (getaddrinfo : Text → List SockAddr) (hostName : Text) :
    List Text :=
  ((getaddrinfo (cstr hostName)).map (Net.toIP inet)).filter (· ≠ [])

/-- A new `EndPoint`; its port is not set. -/
def Net.EndPoint.new : Net.EndPoint :=
  { sockAddr := Net.zeroSockAddr, host := [], port := 0, type := .ipv4 }

namespace Balance

/-- The code outside the repository. -/
structure Env (G : Type) where
  hash : Text → Fin 4 → UInt32
  random : Random G
  inet : Net.Inet
  getaddrinfo : Text → List SockAddr
  sort : List ServerNode → List ServerNode

/-- A node whose end point is set by `from(host, port)`; the result of it is ignored. -/
def nodeFrom (inet : Net.Inet) (host : Text) (port : ℤ) : ServerNode :=
  { endpoint := (Net.EndPoint.new.from inet host port).2 }

/-- What the resolvers hold. -/
structure Resolver (G : Type) where
  resolveCache : List ServerNode
  loadBalance : LoadBalance G

/-- `FixedListResolver(servers)`, with a new `RandomBalance`. -/
def fixedListResolver {G : Type} (env : Env G) (gen : G) (servers : List (Text × ℤ)) :
    Resolver G where
  resolveCache := servers.map fun server => nodeFrom env.inet server.1 server.2
  loadBalance := .random gen

/-- `DNSResolver::resolve(server_nodes)`. -/
def resolve {G : Type} (env : Env G) (serviceName : Text) (port₀ : ℤ)
    (serverNodes : List ServerNode) : Option (List ServerNode) :=
  (Net.splitHostPort serviceName [] port₀).map fun (_, hostName, port) =>
    env.sort (serverNodes ++
      (Net.dnsResolve env.inet env.getaddrinfo hostName).map fun addr =>
        nodeFrom env.inet addr port)

/-- `DNSResolver(server_name)`, with a new `RandomBalance`. -/
def dnsResolver {G : Type} (env : Env G) (gen : G) (serverName : Text) (port₀ : ℤ) :
    Option (Resolver G) :=
  (resolve env serverName port₀ []).map fun cache =>
    { resolveCache := cache, loadBalance := (LoadBalance.random gen).onChanged env.hash cache }

/-- `get_next(seed)` of both resolvers. -/
def Resolver.getNext {G : Type} (env : Env G) (r : Resolver G) (seed : UInt32) :
    Option (ServerNode × Resolver G) :=
  (r.loadBalance.getNext env.hash env.random seed r.resolveCache).map fun (node, lb) =>
    (node, { r with loadBalance := lb })

/-- The constructors of the balancers; `factor` is converted to `size_t`. -/
inductive NewBalance (G : Type)
  | consistentHash (factor : ℤ)
  | random (gen : G)
  | weightedRandom (gen : G)

/-- The balancer that is constructed. -/
def NewBalance.construct {G : Type} : NewBalance G → LoadBalance G
  | .consistentHash factor => .consistentHash { factor := (factor % 2 ^ 64).toNat }
  | .random gen => .random gen
  | .weightedRandom gen => .weightedRandom gen

/-- `new_load_balance(type)`. -/
inductive LoadBalanceType
  | consistentHash
  | random
  | weightedRandom
  deriving DecidableEq, Repr

/-- `new_load_balance(type)`: what is constructed. -/
def newLoadBalance {G : Type} (gen : G) : LoadBalanceType → NewBalance G
  | .consistentHash => .consistentHash 20
  | .random => .random gen
  | .weightedRandom => .weightedRandom gen

/-- What is called on a resolver. -/
inductive Call (G : Type)
  | withLoadBalance (lb : NewBalance G)
  | discardCache
  | getNext (seed : UInt32)

/-- One call. -/
def Resolver.step {G : Type} (env : Env G) (r : Resolver G) : Call G → Option (Resolver G)
  | .withLoadBalance lb => some { r with loadBalance := lb.construct }
  | .discardCache => some { r with resolveCache := [] }
  | .getNext seed => (r.getNext env seed).map Prod.snd

/-! ### Resolved nodes -/

section Nodes

variable {G : Type} {env : Env G} {hostName serviceName : Text} {port port₀ : ℤ} {s t : ServerNode}
  {a b : Text}

/-- What the answers of `getaddrinfo` are: addresses whose texts are read back. -/
def Env.Answers (env : Env G) : Prop :=
  ∀ host, ∀ ss ∈ env.getaddrinfo host, ∀ f : Net.Family, Net.family ss = f.number →
    env.inet.Inverts f (Net.addressOf f ss)

/-- The texts of the addresses of a host. -/
def Env.texts (env : Env G) (hostName : Text) : List Text :=
  Net.dnsResolve env.inet env.getaddrinfo hostName

/-- The nodes of a host. -/
def Env.nodes (env : Env G) (hostName : Text) (port : ℤ) : List ServerNode :=
  (env.texts hostName).map fun addr => nodeFrom env.inet addr port

/-- A text of a host is that of an address. -/
theorem exists_address (h : env.Answers) (ha : a ∈ env.texts hostName) :
    ∃ f bytes, env.inet.Inverts f bytes ∧ a = env.inet.ntop f bytes := by
  obtain ⟨hmem, hne⟩ := List.mem_filter.mp ha
  obtain ⟨ss, hss, rfl⟩ := List.mem_map.mp hmem
  rw [Net.toIP] at hne ⊢
  by_cases h4 : Net.family ss = Net.Family.inet.number
  · exact ⟨.inet, _, h _ ss hss .inet h4, if_pos h4⟩
  · rw [if_neg h4] at hne ⊢
    by_cases h6 : Net.family ss = Net.Family.inet6.number
    · exact ⟨.inet6, _, h _ ss hss .inet6 h6, if_pos h6⟩
    · rw [if_neg h6] at hne
      exact absurd rfl (of_decide_eq_true hne)

/-- **Texts that differ are those of different addresses.** -/
theorem text_eq_of_sockAddr (h : env.Answers) (ha : a ∈ env.texts hostName)
    (hb : b ∈ env.texts hostName)
    (heq : (nodeFrom env.inet a port).sockAddr = (nodeFrom env.inet b port).sockAddr) : a = b := by
  obtain ⟨f, bytes, hf, rfl⟩ := exists_address h ha
  obtain ⟨g, bytes', hg, rfl⟩ := exists_address h hb
  obtain ⟨ss, hparse, hfamily, haddress, -⟩ := hf.parse port
  obtain ⟨ss', hparse', hfamily', haddress', -⟩ := hg.parse port
  have hss : ss = ss' := by
    have hleft : (nodeFrom env.inet (env.inet.ntop f bytes) port).sockAddr = ss :=
      congrArg (fun result => result.2.1) hparse
    have hright : (nodeFrom env.inet (env.inet.ntop g bytes') port).sockAddr = ss' :=
      congrArg (fun result => result.2.1) hparse'
    rw [← hleft, ← hright, heq]
  subst hss
  obtain rfl : f = g := by
    have hnumber := hfamily.symm.trans hfamily'
    cases f <;> cases g <;> first | rfl | exact absurd hnumber (by decide)
  rw [← haddress, ← haddress']

/-- The nodes of a host are **all equivalent**: their weights are the same, and with one address so
are their texts. -/
theorem not_lt_of_mem_nodes (h : env.Answers) (hs : s ∈ env.nodes hostName port)
    (ht : t ∈ env.nodes hostName port) : s.lt env.inet t = false := by
  obtain ⟨a, ha, rfl⟩ := List.mem_map.mp hs
  obtain ⟨b, hb, rfl⟩ := List.mem_map.mp ht
  refine Bool.eq_false_iff.mpr fun hlt => ?_
  rw [lt_iff_layered] at hlt
  rcases hlt with ⟨-, hweight⟩ | ⟨haddr, hbefore⟩
  · exact lt_irrefl _ hweight
  · obtain rfl := text_eq_of_sockAddr h ha hb haddr
    exact ServerNode.not_before_self hbefore

/-- The nodes of an answer are ordered strictly and weakly. -/
theorem strictWeakOn_nodes (h : env.Answers) :
    Sorting.StrictWeakOn {s | s ∈ env.nodes hostName port} fun s t => s.lt env.inet t = true :=
  .of_forall_not fun _ hs _ ht => Bool.eq_false_iff.mp (not_lt_of_mem_nodes h hs ht)

/-- `resolve` sorts the nodes of the host and the port that are read. -/
theorem resolve_eq (env : Env G) (serviceName : Text) (port₀ : ℤ) :
    resolve env serviceName port₀ [] = (Net.splitHostPort serviceName [] port₀).map
      fun result => env.sort (env.nodes result.2.1 result.2.2) := rfl

end Nodes

/-! ### The safety of `get_next` -/

section Safety

variable {G : Type} {env : Env G} {r r₀ : Resolver G} {seed : UInt32} {nodes : List ServerNode}
  {servers : List ServerNode} {gen : G}

/-- The resolvers that are constructed. -/
inductive Created (env : Env G) : Resolver G → Prop
  | fixedList (gen : G) (servers : List (Text × ℤ)) :
      Created env (fixedListResolver env gen servers)
  | dns {gen : G} {serverName : Text} {port₀ : ℤ} {r : Resolver G}
      (h : dnsResolver env gen serverName port₀ = some r) : Created env r

/-- `get_next` is **safe**: it returns a member of the list. No balancer has a result that says that
it failed. -/
def Safe (env : Env G) (r : Resolver G) (seed : UInt32) : Prop :=
  ∃ node r', r.getNext env seed = some (node, r') ∧ node ∈ r.resolveCache

/-- When it is: a ring needs a server and virtual nodes, and a uniform choice needs a last index
that is not negative. The weights that the resolvers leave allow no choice by weight. -/
def Serves (r : Resolver G) : Prop :=
  match r.loadBalance with
  | .consistentHash b => r.resolveCache ≠ [] ∧ b.factor ≠ 0
  | .random _ => 0 ≤ lastIndex r.resolveCache.length
  | .weightedRandom _ => False

/-- What a balancer's ring keeps: nodes of a list, and none without virtual nodes. -/
structure RingOf (nodes : List ServerNode) (b : ConsistentHashBalance) : Prop where
  mem : ∀ e ∈ b.ring.items, e.2 ∈ nodes
  zero : b.factor = 0 → b.ring.items = []

/-- What every call **keeps**: the cache holds the nodes of the constructor or none, and the ring
holds nodes of the constructor, and none without virtual nodes. -/
structure Inv (nodes : List ServerNode) (r : Resolver G) : Prop where
  cache : r.resolveCache = nodes ∨ r.resolveCache = []
  ring : ∀ b, r.loadBalance = .consistentHash b → RingOf nodes b

/-- The total is the sum of the weights. -/
theorem fst_presums {state : ℤ × List ℤ} (h : presums servers = some state) :
    state.1 = (weights servers).sum := by
  induction servers using List.reverseRecOn generalizing state with
  | nil =>
      obtain rfl := Option.some.inj h
      rfl
  | append_singleton servers s ih =>
      rw [presums_concat] at h
      obtain ⟨before, hbefore, hstep⟩ := Option.bind_eq_some_iff.mp h
      simp only [presumStep, Option.bind_eq_bind, Option.bind_eq_some_iff, Option.pure_def,
        Option.some.injEq] at hstep
      obtain ⟨total, htotal, -, -, -, -, rfl⟩ := hstep
      have hadd := (Option.ite_none_right_eq_some.mp htotal).2
      rw [weights, List.map_append, List.sum_append, ← weights, ← ih hbefore]
      simpa using (Option.some.inj hadd).symm

/-- **No choice by weight** between servers whose weights are not set. -/
theorem weightedGetNext_eq_none (env : Env G) (h : ∀ s ∈ servers, s.weight = -1) :
    weightedGetNext env.random gen seed servers = none := by
  have hsum : (weights servers).sum ≤ 0 := by
    have hle := List.sum_le_card_nsmul (weights servers) 0 fun x hx => by
      obtain ⟨s, hs, rfl⟩ := List.mem_map.mp hx
      rw [h s hs]
      decide
    rwa [nsmul_zero] at hle
  rw [weightedGetNext]
  cases hstate : presums servers with
  | none => rfl
  | some state =>
      have htotal := fst_presums hstate
      have hempty : ¬ (1 : ℤ) ≤ state.1 := by omega
      simp [Random.dis, hempty]

/-- The last index is one of the list. -/
theorem lastIndex_lt {n : ℕ} (hpos : 0 < n) : lastIndex n < n := by
  rw [lastIndex, asInt]
  split_ifs <;> omega

/-- **The uniform choice** needs a last index that is not negative. -/
theorem randomGetNext_iff (env : Env G) : (∃ node gen', randomGetNext env.random gen seed servers =
    some (node, gen') ∧ node ∈ servers) ↔ 0 ≤ lastIndex servers.length := by
  rcases servers with - | ⟨s, - | ⟨t, servers⟩⟩
  · refine iff_of_false ?_ (by decide)
    rintro ⟨node, -, -, hmem⟩
    cases hmem
  · exact iff_of_true ⟨s, gen, rfl, List.mem_singleton_self s⟩
      (lastIndex_of_lt Nat.one_pos (by decide)).ge
  · set all := s :: t :: servers with hall
    have hunfold : randomGetNext env.random gen seed all =
        (env.random.dis (env.random.reseed gen seed) 0 (lastIndex all.length)).bind fun drawn =>
          (all[drawn.1.toNat]?).bind fun node => some (node, drawn.2) := rfl
    rw [hunfold, Random.dis]
    by_cases hlast : 0 ≤ lastIndex all.length
    · refine iff_of_true ?_ hlast
      rw [if_pos hlast, Option.bind_some]
      obtain ⟨hlow, hhigh⟩ := env.random.mem_draw (g := env.random.reseed gen seed) hlast
      have hlt := lastIndex_lt (n := all.length) (by rw [hall]; exact Nat.succ_pos _)
      have hinside : (env.random.draw (env.random.reseed gen seed) 0
          (lastIndex all.length)).1.toNat < all.length := by omega
      rw [List.getElem?_eq_getElem hinside]
      exact ⟨_, _, rfl, List.getElem_mem hinside⟩
    · refine iff_of_false ?_ hlast
      rw [if_neg hlast]
      rintro ⟨node, gen', h, -⟩
      cases h

/-- The ring has an entry where there are a server and virtual nodes. -/
theorem circle_ne_nil {hash : Text → Fin 4 → UInt32} {factor : ℕ} :
    (circle hash factor servers).items ≠ [] ↔ servers ≠ [] ∧ factor ≠ 0 := by
  constructor
  · intro h
    obtain ⟨e, he⟩ := List.exists_mem_of_ne_nil _ h
    obtain ⟨t, ht, hp⟩ := exists_mem_circle.mp ⟨e, he, rfl⟩
    refine ⟨List.ne_nil_of_mem ht, ?_⟩
    rintro rfl
    cases hp
  · rintro ⟨hservers, hfactor⟩
    obtain ⟨t, ht⟩ := List.exists_mem_of_ne_nil _ hservers
    have hp : (hash (ringKey t 0) 0).toNat ∈ points hash factor t := by
      refine List.mem_flatMap.mpr ⟨0, List.mem_range.mpr (Nat.pos_of_ne_zero hfactor), ?_⟩
      exact List.mem_map.mpr ⟨0, List.mem_finRange 0, rfl⟩
    obtain ⟨e, he, -⟩ := exists_mem_circle.mpr ⟨t, ht, hp⟩
    exact List.ne_nil_of_mem he

/-- The balancer that a choice is made with: an empty ring is filled before. -/
def filled (hash : Text → Fin 4 → UInt32) (b : ConsistentHashBalance) (servers : List ServerNode) :
    ConsistentHashBalance :=
  if servers ≠ [] ∧ b.ring.items = [] then { b with ring := circle hash b.factor servers } else b

/-- The choice is the node that the filled ring assigns to the seed. -/
theorem getNext_ring_iff {hash : Text → Fin 4 → UInt32} {b b' : ConsistentHashBalance}
    {node : ServerNode} : b.getNext hash seed servers = some (node, b') ↔
      assign b'.ring seed = some node ∧ b' = filled hash b servers := by
  rw [ConsistentHashBalance.getNext, Option.map_eq_some_iff]
  constructor
  · rintro ⟨node, hnode, heq⟩
    obtain ⟨rfl, rfl⟩ := Prod.mk.inj heq
    exact ⟨hnode, rfl⟩
  · rintro ⟨hnode, rfl⟩
    exact ⟨node, hnode, rfl⟩

section Rings

variable {hash : Text → Fin 4 → UInt32} {b : ConsistentHashBalance}

/-- Filling a ring keeps it one of the nodes. -/
theorem RingOf.filled (h : RingOf nodes b) (hservers : servers = nodes ∨ servers = []) :
    RingOf nodes (filled hash b servers) := by
  rw [Balance.filled]
  split
  · next hempty =>
      obtain rfl := hservers.resolve_right hempty.1
      refine ⟨fun e he => mem_of_mem_circle he, fun hzero => ?_⟩
      exact not_not.mp fun hne => (circle_ne_nil.mp hne).2 hzero
  · exact h

theorem factor_filled : (filled hash b servers).factor = b.factor := by
  rw [filled]
  split <;> rfl

/-- A choice on a ring is safe **where there are a server and virtual nodes**. -/
theorem RingOf.getNext_iff (h : RingOf nodes b) (hservers : servers = nodes ∨ servers = []) :
    (∃ node b', b.getNext hash seed servers = some (node, b') ∧ node ∈ servers) ↔
      servers ≠ [] ∧ b.factor ≠ 0 := by
  have hfilled : RingOf nodes (Balance.filled hash b servers) := h.filled hservers
  constructor
  · rintro ⟨node, b', hnext, hmem⟩
    obtain ⟨hassign, rfl⟩ := getNext_ring_iff.mp hnext
    refine ⟨List.ne_nil_of_mem hmem, fun hzero => ?_⟩
    have hempty := hfilled.zero (factor_filled.trans hzero)
    rw [assign, OrderedMap.next_eq_none_iff.mpr hempty] at hassign
    cases hassign
  · rintro ⟨hne, hfactor⟩
    obtain rfl := hservers.resolve_right hne
    have hring : (Balance.filled hash b servers).ring.items ≠ [] := by
      rw [Balance.filled]
      split
      · exact circle_ne_nil.mpr ⟨hne, hfactor⟩
      · next hnot => exact fun hempty => hnot ⟨hne, hempty⟩
    obtain ⟨e, he⟩ := Option.ne_none_iff_exists'.mp (mt OrderedMap.next_eq_none_iff.mp hring)
    refine ⟨e.2, _, getNext_ring_iff.mpr ⟨?_, rfl⟩, hfilled.mem e (OrderedMap.mem_of_next he)⟩
    rw [assign, he]
    rfl

end Rings

/-- **What a call keeps.** -/
theorem Inv.step {c : Call G} (h : Inv nodes r) (hstep : r.step env c = some r₀) :
    Inv nodes r₀ := by
  cases c with
  | withLoadBalance lb =>
      obtain rfl := Option.some.inj hstep
      refine ⟨h.cache, fun b hb => ?_⟩
      cases lb with
      | consistentHash factor =>
          obtain rfl := LoadBalance.consistentHash.inj hb
          exact ⟨fun e he => absurd he List.not_mem_nil, fun _ => rfl⟩
      | random gen => cases hb
      | weightedRandom gen => cases hb
  | discardCache =>
      obtain rfl := Option.some.inj hstep
      exact ⟨.inr rfl, h.ring⟩
  | getNext seed =>
      obtain ⟨⟨node, r'⟩, hnext, rfl⟩ := Option.map_eq_some_iff.mp hstep
      obtain ⟨⟨node', lb⟩, hlb, heq⟩ := Option.map_eq_some_iff.mp hnext
      obtain ⟨rfl, rfl⟩ := Prod.mk.inj heq
      refine ⟨h.cache, fun b' hb' => ?_⟩
      dsimp only at hb'
      subst hb'
      cases hbalance : r.loadBalance with
      | consistentHash b =>
          rw [hbalance] at hlb
          obtain ⟨⟨node, b''⟩, hring, heq⟩ := Option.map_eq_some_iff.mp hlb
          obtain ⟨rfl, hb⟩ := Prod.mk.inj heq
          obtain rfl := LoadBalance.consistentHash.inj hb
          rw [(getNext_ring_iff.mp hring).2]
          exact (h.ring b hbalance).filled h.cache
      | random gen =>
          rw [hbalance] at hlb
          obtain ⟨drawn, -, heq⟩ := Option.map_eq_some_iff.mp hlb
          cases (Prod.mk.inj heq).2
      | weightedRandom gen =>
          rw [hbalance] at hlb
          obtain ⟨drawn, -, heq⟩ := Option.map_eq_some_iff.mp hlb
          cases (Prod.mk.inj heq).2

/-- A choice is the same behind a constructor. -/
theorem exists_map_iff {α β γ : Type*} {o : Option (α × β)} {f : β → γ} {p : α → Prop} :
    (∃ a c, (o.map fun x => (x.1, f x.2)) = some (a, c) ∧ p a) ↔ ∃ a b, o = some (a, b) ∧ p a := by
  cases o with
  | none => simp
  | some x => simp [Prod.ext_iff]

/-- In a state that is kept, `get_next` is **safe exactly where it serves**. -/
theorem Inv.safe_iff (h : Inv nodes r) (hweights : ∀ s ∈ nodes, s.weight = -1) :
    Safe env r seed ↔ Serves r := by
  obtain ⟨cache, balance⟩ := r
  refine (exists_map_iff (f := Resolver.mk cache)).trans ?_
  cases balance with
  | consistentHash b => exact exists_map_iff.trans ((h.ring b rfl).getNext_iff h.cache)
  | random gen => exact exists_map_iff.trans (randomGetNext_iff env)
  | weightedRandom gen =>
      refine exists_map_iff.trans (iff_of_false ?_ id)
      rintro ⟨node, gen', hnext, -⟩
      have hcache : ∀ s ∈ cache, s.weight = -1 := by
        rcases h.cache with hcache | hcache
        · obtain rfl : cache = nodes := hcache
          exact hweights
        · obtain rfl : cache = [] := hcache
          exact fun s hs => absurd hs List.not_mem_nil
      rw [weightedGetNext_eq_none env hcache] at hnext
      cases hnext

/-- The constructors leave the invariant, and **no weights**. -/
theorem Created.exists_inv (hsort : Sorting.StdSort (ServerNode.lt env.inet) env.sort)
    (hanswers : env.Answers) (h : Created env r) :
    ∃ nodes, Inv nodes r ∧ ∀ s ∈ nodes, s.weight = -1 := by
  cases h with
  | fixedList gen servers =>
      refine ⟨_, ⟨.inl rfl, fun b hb => by cases hb⟩, fun s hs => ?_⟩
      obtain ⟨server, -, rfl⟩ := List.mem_map.mp hs
      rfl
  | dns h =>
      obtain ⟨cache, hcache, rfl⟩ := Option.map_eq_some_iff.mp h
      rw [resolve_eq] at hcache
      obtain ⟨result, -, rfl⟩ := Option.map_eq_some_iff.mp hcache
      refine ⟨_, ⟨.inl rfl, fun b hb => by cases hb⟩, fun s hs => ?_⟩
      rw [(hsort.perm _ (strictWeakOn_nodes hanswers)).mem_iff] at hs
      obtain ⟨addr, -, rfl⟩ := List.mem_map.mp hs
      rfl

/-- **When `get_next` is safe**, in every state of a resolver. -/
theorem getNext_safe_iff (env : Env G) (hsort : Sorting.StdSort (ServerNode.lt env.inet) env.sort)
    (hanswers : env.Answers) (r₀ r : Resolver G) (hcreated : Created env r₀)
    (hreach : Lts.Reach (Resolver.step env) Lts.always r₀ r) (seed : UInt32) :
    Safe env r seed ↔ Serves r := by
  obtain ⟨nodes, hinit, hweights⟩ := hcreated.exists_inv hsort hanswers
  have hinv := hreach.invariant (Inv nodes) hinit fun h _ hstep => h.step hstep
  exact hinv.safe_iff hweights

/-- A random engine that draws the lowest number. -/
def lowest : Random Unit where
  seed _ := ()
  draw _ lo _ := (lo, ())
  mem_draw h := ⟨le_refl _, h⟩

/-- The loopback address as a socket address without a port. -/
def loopback (f : Net.Family) : SockAddr :=
  match f with
  | .inet => ⟨Net.sockAddrBytes .inet 0 [127, 0, 0, 1], Net.length_sockAddrBytes rfl _⟩
  | .inet6 =>
      ⟨Net.sockAddrBytes .inet6 0 (List.replicate 15 0 ++ [1]), Net.length_sockAddrBytes rfl _⟩

/-- A host with two addresses. -/
def localhost : Env Unit where
  hash := firstByteHash
  random := lowest
  inet := Net.loopbacks
  getaddrinfo _ := [loopback .inet, loopback .inet6]
  sort := Sorting.stableSort (ServerNode.lt Net.loopbacks)

/-- The sample environment answers. -/
theorem localhost_answers : localhost.Answers := by
  intro host ss hss f hf
  rcases List.mem_cons.mp hss with rfl | hss
  · cases f with
    | inet => exact ⟨rfl, ⟨by decide, by decide, by decide⟩, by decide, by decide⟩
    | inet6 => exact absurd hf (by decide)
  · obtain rfl := List.mem_singleton.mp hss
    cases f with
    | inet => exact absurd hf (by decide)
    | inet6 => exact ⟨rfl, ⟨by decide, by decide, by decide⟩, by decide, by decide⟩

theorem localhost_safe :
    Safe localhost (fixedListResolver localhost () [(ascii "127.0.0.1", 80)]) 1 ↔
      Serves (fixedListResolver localhost () [(ascii "127.0.0.1", 80)]) :=
  getNext_safe_iff localhost Sorting.stdSort_stableSort localhost_answers _ _
    (.fixedList () [(ascii "127.0.0.1", 80)]) .refl 1

/-- A resolver whose call fails is not safe. -/
theorem not_safe_of_eq_none (h : r.getNext env seed = none) : ¬ Safe env r seed := by
  rintro ⟨node, r', hnext, -⟩
  rw [h] at hnext
  cases hnext

/-- One server with a choice by weight, and no servers with the balancer of the constructor. -/
theorem localhost_unsafe : (∃ r, (fixedListResolver localhost () [(ascii "127.0.0.1", 80)]).step
      localhost (.withLoadBalance (newLoadBalance () .weightedRandom)) = some r ∧
        r.getNext localhost 1 = none ∧ ¬ Safe localhost r 1) ∧
    (fixedListResolver localhost () []).getNext localhost 1 = none ∧
    ¬ Safe localhost (fixedListResolver localhost () []) 1 :=
  ⟨⟨_, rfl, rfl, not_safe_of_eq_none rfl⟩, rfl, not_safe_of_eq_none rfl⟩

end Safety

/-! ### The order of the servers -/

section Order

variable {G : Type} {env env' : Env G} {hostName serviceName : Text} {port port₀ : ℤ}
  {a b : Text} {ss : SockAddr} {ok : Bool}

/-- The same code outside, with an answer in **another order** and another sort. -/
structure Reordered (env env' : Env G) : Prop where
  inet : env'.inet = env.inet
  perm : ∀ host, (env'.getaddrinfo host).Perm (env.getaddrinfo host)
  sort : Sorting.StdSort (ServerNode.lt env.inet) env'.sort

/-- `resolve` produces **one list**, in whatever order the addresses are returned. -/
def OneOrder (env : Env G) (serviceName : Text) (port₀ : ℤ) : Prop :=
  ∃ servers, ∀ env', Reordered env env' → resolve env' serviceName port₀ [] = some servers

/-- When it does: the name of the service is split, and there are no two addresses. -/
def OneAddress (env : Env G) (serviceName : Text) (port₀ : ℤ) : Prop :=
  ∃ ok hostName port, Net.splitHostPort serviceName [] port₀ = some (ok, hostName, port) ∧
    ∀ a ∈ env.texts hostName, ∀ b ∈ env.texts hostName, a = b

/-- Reordered answers are answers. -/
theorem Reordered.answers (h : Reordered env env') (hanswers : env.Answers) : env'.Answers := by
  intro host ss hss f hf
  rw [h.inet]
  exact hanswers host ss ((h.perm host).mem_iff.mp hss) f hf

/-- They give the nodes in another order. -/
theorem Reordered.nodes_perm (h : Reordered env env') (hostName : Text) (port : ℤ) :
    (env'.nodes hostName port).Perm (env.nodes hostName port) := by
  rw [Env.nodes, Env.nodes, Env.texts, Env.texts, Net.dnsResolve, Net.dnsResolve, h.inet]
  exact (((h.perm _).map _).filter _).map _

/-- The addresses with one of them **in front**. -/
def inFront (ss : SockAddr) (answer : List SockAddr) : List SockAddr :=
  if ss ∈ answer then ss :: answer.erase ss else answer

/-- An address in front of the others is a reordering. -/
theorem reordered_inFront (env : Env G) (ss : SockAddr) : Reordered env
    { env with
      getaddrinfo := fun host => inFront ss (env.getaddrinfo host)
      sort := Sorting.stableSort (ServerNode.lt env.inet) } := by
  refine ⟨rfl, fun host => ?_, Sorting.stdSort_stableSort⟩
  dsimp only
  rw [inFront]
  split
  · next hmem => exact (List.perm_cons_erase hmem).symm
  · exact .refl _

/-- Any address **can stand first**. -/
theorem exists_first (hanswers : env.Answers) (ha : a ∈ env.texts hostName)
    (hsplit : Net.splitHostPort serviceName [] port₀ = some (ok, hostName, port)) :
    ∃ env' rest, Reordered env env' ∧
      resolve env' serviceName port₀ [] = some (nodeFrom env.inet a port :: rest) := by
  obtain ⟨hmem, hne⟩ := List.mem_filter.mp ha
  obtain ⟨ss, hss, rfl⟩ := List.mem_map.mp hmem
  have hreordered := reordered_inFront env ss
  refine ⟨_, ((((env.getaddrinfo (cstr hostName)).erase ss).map (Net.toIP env.inet)).filter
    (· ≠ [])).map fun addr => nodeFrom env.inet addr port, hreordered, ?_⟩
  rw [resolve_eq, hsplit, Option.map_some]
  refine congrArg some ((Sorting.stableSort_eq_self fun s hs t ht =>
    not_lt_of_mem_nodes (hreordered.answers hanswers) hs ht).trans ?_)
  change (((inFront ss (env.getaddrinfo (cstr hostName))).map (Net.toIP env.inet)).filter
    (· ≠ [])).map (fun addr => nodeFrom env.inet addr port) = _
  rw [inFront, if_pos hss, List.map_cons, List.filter_cons, if_pos hne, List.map_cons]

/-- **`resolve` produces one list exactly where there are no two addresses.** -/
theorem oneOrder_iff (hanswers : env.Answers) :
    OneOrder env serviceName port₀ ↔ OneAddress env serviceName port₀ := by
  constructor
  · rintro ⟨servers, h⟩
    have hsome := h _ (reordered_inFront env (loopback .inet))
    obtain ⟨⟨ok, hostName, port⟩, hsplit, -⟩ := Option.map_eq_some_iff.mp hsome
    refine ⟨ok, hostName, port, hsplit, fun a ha b hb => ?_⟩
    obtain ⟨enva, resta, hreordera, hfirsta⟩ := exists_first hanswers ha hsplit
    obtain ⟨envb, restb, hreorderb, hfirstb⟩ := exists_first hanswers hb hsplit
    have hsame := (h enva hreordera).symm.trans hfirsta
    have hsame' := (h envb hreorderb).symm.trans hfirstb
    have hnodes := (List.cons.inj (Option.some.inj (hsame.symm.trans hsame'))).1
    exact congrArg (fun node : ServerNode => node.endpoint.host) hnodes
  · rintro ⟨ok, hostName, port, hsplit, hone⟩
    refine ⟨env.nodes hostName port, fun env' hreordered => ?_⟩
    rw [resolve_eq, hsplit, Option.map_some]
    have hweak : Sorting.StrictWeakOn {s | s ∈ env'.nodes hostName port}
        fun s t => s.lt env'.inet t = true := strictWeakOn_nodes (hreordered.answers hanswers)
    rw [hreordered.inet] at hweak
    have hperm := (hreordered.sort.perm _ hweak).trans (hreordered.nodes_perm hostName port)
    refine congrArg some ?_
    cases hnodes : env.nodes hostName port with
    | nil => exact (hnodes ▸ hperm).eq_nil
    | cons s rest =>
        have hall : ∀ t ∈ env.nodes hostName port, t = s := by
          intro t ht
          have hs : s ∈ env.nodes hostName port := hnodes ▸ List.mem_cons_self
          obtain ⟨a, ha, rfl⟩ := List.mem_map.mp ht
          obtain ⟨b, hb, rfl⟩ := List.mem_map.mp hs
          rw [hone a ha b hb]
        have hrep := List.eq_replicate_of_mem hall
        rw [hrep] at hperm
        rw [← hnodes, hrep]
        exact List.perm_replicate.mp hperm

/-- **When servers are ordered**, with their addresses told apart, and **when their order does not
depend on the answer**. -/
theorem resolve_order_iff (env : Env G) (hanswers : env.Answers) :
    (∀ S : Set ServerNode, Sorting.StrictWeakOn S (fun s t => s.lt env.inet t = true) ∧
      Sorting.SeparatesOn S ServerNode.sockAddr (fun s t => s.lt env.inet t = true) ↔ Ordered S) ∧
    ∀ serviceName port₀, OneOrder env serviceName port₀ ↔ OneAddress env serviceName port₀ :=
  ⟨fun _ => ordered_iff, fun _ _ => oneOrder_iff hanswers⟩

theorem localhost_order : OneOrder localhost (ascii "localhost:80") 0 ↔
    OneAddress localhost (ascii "localhost:80") 0 :=
  (resolve_order_iff localhost localhost_answers).2 (ascii "localhost:80") 0

/-- The two addresses of the host are equivalent, and their order is that of the answer. -/
theorem localhost_equivalent :
    (nodeFrom Net.loopbacks (ascii "127.0.0.1") 80).sockAddr ≠
      (nodeFrom Net.loopbacks (ascii "::1") 80).sockAddr ∧
    (nodeFrom Net.loopbacks (ascii "127.0.0.1") 80).lt Net.loopbacks
      (nodeFrom Net.loopbacks (ascii "::1") 80) = false ∧
    (nodeFrom Net.loopbacks (ascii "::1") 80).lt Net.loopbacks
      (nodeFrom Net.loopbacks (ascii "127.0.0.1") 80) = false ∧
    ¬ OneOrder localhost (ascii "localhost:80") 0 := by
  refine ⟨by decide, by decide, by decide, fun h => ?_⟩
  obtain ⟨ok, hostName, port, -, hone⟩ := (oneOrder_iff localhost_answers).mp h
  have hsame := hone (ascii "127.0.0.1") List.mem_cons_self (ascii "::1")
    (List.mem_cons_of_mem _ List.mem_cons_self)
  exact absurd hsame (by decide)

end Order

end Balance

end ArchNet
