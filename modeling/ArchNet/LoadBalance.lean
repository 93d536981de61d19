import ArchNet.HostPort
import ArchNet.OrderedMap
import Mathlib.Algebra.Order.BigOperators.Group.List
import Mathlib.Order.Interval.Finset.Nat

/-!
# Load Balancing

The three balancers of `load_balance.h`: a ring of hash values, a uniform choice, and a choice by
weight.

## Conventions

* `MurmurHash3_x64_128` is a parameter, an arbitrary function of the key. The random engine and
  its distribution are one too (`Random`): a number that is drawn lies in the range.
* `none` stands for undefined behaviour: the first entry of an empty ring, an element outside a
  vector, a range whose lower bound lies above its upper bound, and an `int` that overflows.

## Main results

* `assign_erase`: **only the keys of a server that is removed move**.
* `select_exact_iff`: **the choice by weight is exact**, for fewer than `2 ^ 31` servers.
-/

open Bytes

namespace ArchNet.Balance

open Routing (Text cstr)

/-! ### The code -/

/-- `ServerNode`. -/
structure ServerNode where
  endpoint : Net.EndPoint
  tag : Text := []
  weight : ℤ := -1
  valid : Bool := false
  deriving DecidableEq

/-- `ServerRing`, with numbers for the keys of type `uint32_t`. -/
abbrev ServerRing := OrderedMap ℕ ServerNode

/-- `%d`. -/
def formatInt (z : ℤ) : Text := if z < 0 then 45 :: decimal z.natAbs else decimal z.natAbs

/-- `string_printf` of a text: `vsnprintf` reports a text that no `int` counts as an error. -/
def stringPrintf (text : Text) : Text := if text.length + 1 < 2 ^ 31 then text else []

/-- The key of a virtual node: `"%s:%d-%zu"`. -/
def ringKey (server : ServerNode) (i : ℕ) : Text :=
  stringPrintf (cstr server.endpoint.host ++ 58 :: formatInt server.endpoint.port ++
    45 :: decimal i)

/-- `initialize_circle(servers, ring)`; each hash stands for four virtual nodes. -/
def initializeCircle (hash : Text → Fin 4 → UInt32) (factor : ℕ) (servers : List ServerNode)
    (ring : ServerRing) : ServerRing :=
  servers.foldl (fun ring server =>
    (List.range factor).foldl (fun ring i =>
      let val := hash (ringKey server i)
      (List.finRange 4).foldl (fun ring j => ring.set (val j).toNat server) ring) ring) ring

/-- The node at the lower bound of the seed, or the first one. -/
def assign (ring : ServerRing) (seed : UInt32) : Option ServerNode :=
  (ring.next seed.toNat).map Prod.snd

/-- `ConsistentHashBalance`, with `factor_` as a `size_t`. -/
structure ConsistentHashBalance where
  factor : ℕ
  ring : ServerRing := .empty

/-- `ConsistentHashBalance::get_next(seed, servers)`. -/
def ConsistentHashBalance.getNext (hash : Text → Fin 4 → UInt32) (b : ConsistentHashBalance)
    (seed : UInt32) (servers : List ServerNode) : Option (ServerNode × ConsistentHashBalance) :=
  let b := if servers ≠ [] ∧ b.ring.items = [] then
    { b with ring := initializeCircle hash b.factor servers .empty } else b
  (assign b.ring seed).map fun node => (node, b)

/-- `ConsistentHashBalance::on_changed(new_servers)`. -/
def ConsistentHashBalance.onChanged (hash : Text → Fin 4 → UInt32) (b : ConsistentHashBalance)
    (newServers : List ServerNode) : ConsistentHashBalance :=
  { b with ring := initializeCircle hash b.factor newServers .empty }

/-- `std::mt19937` and `std::uniform_int_distribution<int>`. -/
structure Random (G : Type) where
  seed : UInt32 → G
  draw : G → ℤ → ℤ → ℤ × G
  mem_draw : ∀ {g lo hi}, lo ≤ hi → lo ≤ (draw g lo hi).1 ∧ (draw g lo hi).1 ≤ hi

/-- `gen_.seed(seed)`, unless the seed is zero. -/
def Random.reseed {G : Type} (random : Random G) (gen : G) (seed : UInt32) : G :=
  if seed ≠ 0 then random.seed seed else gen

/-- `dis(gen_)` of a distribution that may be constructed. -/
def Random.dis {G : Type} (random : Random G) (gen : G) (lo hi : ℤ) : Option (ℤ × G) :=
  if lo ≤ hi then some (random.draw gen lo hi) else none

/-- `servers.size()-1`, converted to `int`. -/
def lastIndex (n : ℕ) : ℤ := asInt ((n + (2 ^ 64 - 1)) % 2 ^ 64 % 2 ^ 32)

/-- `RandomBalance::get_next(seed, servers)`. -/
def randomGetNext {G : Type} (random : Random G) (gen : G) (seed : UInt32)
    (servers : List ServerNode) : Option (ServerNode × G) :=
  match servers with
  | [server] => some (server, gen)
  | _ => do
      let gen := random.reseed gen seed
      let (x, gen) ← random.dis gen 0 (lastIndex servers.length)
      let node ← servers[x.toNat]?
      return (node, gen)

/-- The sum of two `int`s. -/
def addInt (a b : ℤ) : Option ℤ :=
  if -2 ^ 31 ≤ a + b ∧ a + b < 2 ^ 31 then some (a + b) else none

/-- `presum[i]`: the weight is added to `presum[i - 1]`, if there is one. -/
def nextSum (presum : List ℤ) (weight : ℤ) : Option ℤ :=
  match presum.getLast? with
  | some before => addInt before weight
  | none => some weight

/-- One round of the loop over the servers: `total`, `presum[i]` and `i++`. -/
def presumStep (state : ℤ × List ℤ) (server : ServerNode) : Option (ℤ × List ℤ) := do
  let total ← addInt state.1 server.weight
  let sum ← nextSum state.2 server.weight
  let _ ← addInt state.2.length 1
  return (total, state.2 ++ [sum])

/-- The loop over the servers. -/
def presums (servers : List ServerNode) : Option (ℤ × List ℤ) := servers.foldlM presumStep (0, [])

/-- The loop of `binarySearch`. -/
def searchLoop (presum : List ℤ) (x : ℤ) (low high : ℤ) : Option ℤ :=
  if low < high then
    let mid := (high - low) / 2 + low
    match presum[mid.toNat]? with
    | none => none
    | some p => if p < x then searchLoop presum x (mid + 1) high else searchLoop presum x low mid
  else some low
termination_by (high - low).toNat

/-- `binarySearch(presum, x)`. -/
def binarySearch (presum : List ℤ) (x : ℤ) : Option ℤ :=
  searchLoop presum x 0 (lastIndex presum.length)

/-- `WeightedRandomBalance::get_next(seed, servers)`. -/
def weightedGetNext {G : Type} (random : Random G) (gen : G) (seed : UInt32)
    (servers : List ServerNode) : Option (ServerNode × G) := do
  let gen := random.reseed gen seed
  let (total, presum) ← presums servers
  let (x, gen) ← random.dis gen 1 total
  let idx ← binarySearch presum x
  let node ← servers[idx.toNat]?
  return (node, gen)

/-- `ConsistentHashBalance`, `RandomBalance` and `WeightedRandomBalance`. -/
inductive LoadBalance (G : Type)
  | consistentHash (b : ConsistentHashBalance)
  | random (gen : G)
  | weightedRandom (gen : G)

/-- `LoadBalance::get_next(seed, servers)`. -/
def LoadBalance.getNext {G : Type} (hash : Text → Fin 4 → UInt32) (random : Random G)
    (seed : UInt32) (servers : List ServerNode) :
    LoadBalance G → Option (ServerNode × LoadBalance G)
  | .consistentHash b =>
      (b.getNext hash seed servers).map fun (node, b) => (node, .consistentHash b)
  | .random gen =>
      (randomGetNext random gen seed servers).map fun (node, gen) => (node, .random gen)
  | .weightedRandom gen =>
      (weightedGetNext random gen seed servers).map fun (node, gen) => (node, .weightedRandom gen)

/-- `LoadBalance::on_changed(new_servers)`. -/
def LoadBalance.onChanged {G : Type} (hash : Text → Fin 4 → UInt32) (newServers : List ServerNode) :
    LoadBalance G → LoadBalance G
  | .consistentHash b => .consistentHash (b.onChanged hash newServers)
  | .random gen => .random gen
  | .weightedRandom gen => .weightedRandom gen

/-! ### The ring -/

section Ring

variable {hash : Text → Fin 4 → UInt32} {factor : ℕ} {servers : List ServerNode} {s t : ServerNode}
  {e : ℕ × ServerNode} {seed : UInt32}

/-- The **virtual nodes** of a server. -/
def points (hash : Text → Fin 4 → UInt32) (factor : ℕ) (server : ServerNode) : List ℕ :=
  (List.range factor).flatMap fun i =>
    (List.finRange 4).map fun j => (hash (ringKey server i) j).toNat

/-- The ring of a list of servers. -/
def circle (hash : Text → Fin 4 → UInt32) (factor : ℕ) (servers : List ServerNode) : ServerRing :=
  initializeCircle hash factor servers .empty

/-- A server puts its points on the circle over those of the others. -/
theorem circle_concat : circle hash factor (servers ++ [s]) =
    (points hash factor s).foldl (fun ring p => ring.set p s) (circle hash factor servers) := by
  rw [circle, initializeCircle, List.foldl_append, points, List.foldl_flatMap]
  simp only [List.foldl_map]
  rfl

/-- **The server added last for a virtual node** holds it. -/
theorem mem_circle_concat : e ∈ (circle hash factor (servers ++ [s])).items ↔
    e.1 ∈ points hash factor s ∧ e.2 = s ∨
      e.1 ∉ points hash factor s ∧ e ∈ (circle hash factor servers).items := by
  rw [circle_concat, OrderedMap.mem_foldl_set]

/-- The keys of the ring are the virtual nodes of its servers. -/
theorem exists_mem_circle {p : ℕ} : (∃ e ∈ (circle hash factor servers).items, e.1 = p) ↔
    ∃ t ∈ servers, p ∈ points hash factor t := by
  induction servers using List.reverseRecOn with
  | nil => simp [circle, initializeCircle, OrderedMap.empty]
  | append_singleton servers s ih =>
      simp only [mem_circle_concat, List.mem_append, List.mem_singleton, or_and_right, exists_or,
        exists_eq_left, ← ih]
      constructor
      · rintro (⟨e, ⟨hp, -⟩, rfl⟩ | ⟨e, ⟨-, he⟩, rfl⟩)
        · exact .inr hp
        · exact .inl ⟨e, he, rfl⟩
      · intro h
        by_cases hp : p ∈ points hash factor s
        · exact .inl ⟨(p, s), ⟨hp, rfl⟩, rfl⟩
        · obtain ⟨e, he, rfl⟩ := h.resolve_right hp
          exact .inr ⟨e, ⟨hp, he⟩, rfl⟩

/-- The servers in the ring are those of the list. -/
theorem mem_of_mem_circle (h : e ∈ (circle hash factor servers).items) : e.2 ∈ servers := by
  induction servers using List.reverseRecOn with
  | nil => cases h
  | append_singleton servers s ih =>
      rcases mem_circle_concat.mp h with ⟨-, he⟩ | ⟨-, he⟩
      · exact List.mem_append_right _ (List.mem_singleton.mpr he)
      · exact List.mem_append_left _ (ih he)

/-- **The nodes of the other servers stay** where they are without a server. -/
theorem mem_circle_filter (h : e ∈ (circle hash factor servers).items) (hne : e.2 ≠ s) :
    e ∈ (circle hash factor (servers.filter (· != s))).items := by
  induction servers using List.reverseRecOn with
  | nil => cases h
  | append_singleton servers t ih =>
      rw [List.filter_append]
      by_cases ht : t = s
      · rw [List.filter_eq_nil_iff.mpr (by simp [ht] : ∀ u ∈ [t], ¬ (u != s) = true),
          List.append_nil]
        rcases mem_circle_concat.mp h with ⟨-, he⟩ | ⟨-, he⟩
        · exact absurd (he.trans ht) hne
        · exact ih he
      · rw [List.filter_eq_self.mpr (by simp [ht] : ∀ u ∈ [t], (u != s) = true),
          mem_circle_concat]
        exact (mem_circle_concat.mp h).imp_right fun he => ⟨he.1, ih he.2⟩

/-- **Only the keys of a server that is removed move.** -/
theorem assign_erase (hash : Text → Fin 4 → UInt32) (factor : ℕ) (servers : List ServerNode)
    (hnodup : servers.Nodup) (s t : ServerNode) (seed : UInt32)
    (h : assign (initializeCircle hash factor servers .empty) seed = some t) (hne : t ≠ s) :
    assign (initializeCircle hash factor (servers.erase s) .empty) seed = some t := by
  obtain ⟨e, he, rfl⟩ := Option.map_eq_some_iff.mp h
  have hkept := mem_circle_filter (OrderedMap.mem_of_next he) hne
  rw [← hnodup.erase_eq_filter] at hkept
  refine Option.map_eq_some_iff.mpr ⟨e, OrderedMap.next_of_subset (fun f hf => ?_) hkept he, rfl⟩
  obtain ⟨t, ht, hp⟩ := exists_mem_circle.mp ⟨f, hf, rfl⟩
  exact exists_mem_circle.mpr ⟨t, List.mem_of_mem_erase ht, hp⟩

/-- A server with an unresolved address. -/
def serverAt (host : Text) (port : ℤ) : ServerNode where
  endpoint := { sockAddr := Net.zeroSockAddr, host, port, type := .ipv4 }

/-- A hash of the first byte of a key. -/
def firstByteHash (key : Text) (j : Fin 4) : UInt32 :=
  UInt32.ofNat (16 * (key.headD 0).toNat + 4 * j.val)

theorem assign_without_first :
    assign (initializeCircle firstByteHash 1
      ([serverAt (ascii "a") 80, serverAt (ascii "b") 80].erase (serverAt (ascii "a") 80)) .empty)
        1570 = some (serverAt (ascii "b") 80) :=
  assign_erase firstByteHash 1 [serverAt (ascii "a") 80, serverAt (ascii "b") 80] (by decide)
    (serverAt (ascii "a") 80) (serverAt (ascii "b") 80) 1570 rfl (by decide)

end Ring

/-! ### The choice by weight -/

section Weights

variable {servers : List ServerNode} {s : ServerNode} {w presum : List ℤ} {x y total : ℤ} {i j : ℕ}

/-- The weights of the servers. -/
def weights (servers : List ServerNode) : List ℤ := servers.map ServerNode.weight

/-- The sums of the first numbers of a list. -/
def prefixSums (w : List ℤ) : List ℤ := (List.range w.length).map fun i => (w.take (i + 1)).sum

/-- The index that is found for a number that was drawn. -/
def select (servers : List ServerNode) (x : ℤ) : Option ℤ :=
  (presums servers).bind fun state => binarySearch state.2 x

/-- The number lies **among those of the server** at the index. -/
def Covers (servers : List ServerNode) (x : ℤ) (i : ℕ) : Prop :=
  i < servers.length ∧ ((weights servers).take i).sum < x ∧
    x ≤ ((weights servers).take (i + 1)).sum

/-- **The choice by weight is exact**: every number selects the server among whose numbers it is,
and of all numbers as many select a server as its weight says. -/
structure SelectsExactly (servers : List ServerNode) : Prop where
  total : (presums servers).map Prod.fst = some (weights servers).sum
  covers : ∀ x, 1 ≤ x → x ≤ (weights servers).sum →
    ∃ i : ℕ, select servers x = some (i : ℤ) ∧ Covers servers x i
  count : ∀ (i : ℕ) s, servers[i]? = some s → (((Finset.range (weights servers).sum.toNat).filter
    fun k : ℕ => select servers (k + 1) = some (i : ℤ)).card : ℤ) = s.weight
  unweighted : ∀ (i : ℕ) s, servers[i]? = some s → s.weight = 0 →
    ∀ x, 1 ≤ x → x ≤ (weights servers).sum → select servers x ≠ some (i : ℤ)

/-- There are as many sums as weights. -/
theorem length_prefixSums (w : List ℤ) : (prefixSums w).length = w.length := by
  rw [prefixSums, List.length_map, List.length_range]

/-- The last sum is that of all weights. -/
theorem prefixSums_concat : prefixSums (w ++ [x]) = prefixSums w ++ [w.sum + x] := by
  rw [prefixSums, List.length_append, List.length_singleton, List.range_succ, List.map_append,
    List.map_singleton, List.take_of_length_le (by simp), List.sum_append, List.sum_singleton]
  congr 1
  refine List.map_congr_left fun i hi => ?_
  rw [List.take_append_of_le_length (List.mem_range.mp hi)]

/-- A sum is that of the weights up to its place. -/
theorem getElem?_prefixSums (h : i < w.length) :
    (prefixSums w)[i]? = some (w.take (i + 1)).sum := by
  rw [prefixSums, List.getElem?_map, List.getElem?_range h]
  rfl

/-- A sum within the range of an `int` is exact. -/
theorem addInt_of_mem (hlow : 0 ≤ x + y) (hhigh : x + y < 2 ^ 31) : addInt x y = some (x + y) :=
  if_pos ⟨by omega, hhigh⟩

/-- A step adds one sum, while an `int` can count them. -/
theorem of_presumStep {state state' : ℤ × List ℤ} (h : presumStep state s = some state') :
    state'.2.length = state.2.length + 1 ∧ state.2.length + 1 < 2 ^ 31 := by
  simp only [presumStep, Option.bind_eq_bind, Option.bind_eq_some_iff, Option.pure_def,
    Option.some.injEq] at h
  obtain ⟨total, -, sum, -, n, hcount, rfl⟩ := h
  obtain ⟨⟨-, hlt⟩, -⟩ := Option.ite_none_right_eq_some.mp hcount
  exact ⟨List.length_append, by omega⟩

/-- The sums are made from left to right. -/
theorem presums_concat : presums (servers ++ [s]) = (presums servers).bind (presumStep · s) := by
  rw [presums, List.foldlM_append, presums]
  cases List.foldlM presumStep (0, []) servers with
  | none => rfl
  | some state => exact bind_pure (presumStep state s)

/-- The index is an `int`: with too many servers it overflows. -/
theorem of_presums {state : ℤ × List ℤ} (h : presums servers = some state) :
    state.2.length = servers.length ∧ servers.length < 2 ^ 31 := by
  induction servers using List.reverseRecOn generalizing state with
  | nil =>
      obtain rfl := Option.some.inj h
      exact ⟨rfl, by decide⟩
  | append_singleton servers s ih =>
      rw [presums_concat] at h
      obtain ⟨state', hstate', hstep⟩ := Option.bind_eq_some_iff.mp h
      obtain ⟨hlen, -⟩ := ih hstate'
      obtain ⟨hnext, hlt⟩ := of_presumStep hstep
      rw [List.length_append, List.length_singleton, ← hlen]
      exact ⟨hnext, hlt⟩

/-- Weights that are not negative have no negative sum. -/
theorem sum_nonneg_of_weights (h : ∀ s ∈ servers, 0 ≤ s.weight) : 0 ≤ (weights servers).sum := by
  refine List.sum_nonneg fun x hx => ?_
  obtain ⟨s, hs, rfl⟩ := List.mem_map.mp hx
  exact h s hs

/-- The next sum continues the last one. -/
theorem nextSum_prefixSums (hlow : 0 ≤ w.sum + x) (hhigh : w.sum + x < 2 ^ 31) :
    nextSum (prefixSums w) x = some (w.sum + x) := by
  induction w using List.reverseRecOn with
  | nil => exact congrArg some (zero_add x).symm
  | append_singleton w y =>
      rw [nextSum, prefixSums_concat, List.getLast?_concat]
      rw [List.sum_append, List.sum_singleton] at hlow hhigh ⊢
      exact addInt_of_mem hlow hhigh

/-- **The loop sums up the weights.** -/
theorem presums_eq (h : ∀ s ∈ servers, 0 ≤ s.weight) (hint : (weights servers).sum < 2 ^ 31)
    (hlen : servers.length < 2 ^ 31) :
    presums servers = some ((weights servers).sum, prefixSums (weights servers)) := by
  induction servers using List.reverseRecOn with
  | nil => rfl
  | append_singleton servers s ih =>
      have hs := h s (by simp)
      have hall : ∀ s ∈ servers, 0 ≤ s.weight := fun t ht => h t (List.mem_append_left _ ht)
      have hnonneg := sum_nonneg_of_weights hall
      rw [weights, List.map_append, List.map_singleton, ← weights, List.sum_append,
        List.sum_singleton] at hint ⊢
      rw [List.length_append, List.length_singleton] at hlen
      have hnext := nextSum_prefixSums (w := weights servers) (x := s.weight) (by omega) hint
      have hcount : addInt (prefixSums (weights servers)).length 1 =
          some ((prefixSums (weights servers)).length + 1) := by
        rw [length_prefixSums, weights, List.length_map]
        exact addInt_of_mem (by omega) (by omega)
      rw [presums_concat, ih hall (by omega) (by omega), Option.bind_some, presumStep,
        addInt_of_mem (by omega) hint, hnext, hcount, prefixSums_concat]
      rfl

/-- What holds **between the bounds of the search**: the sum before the lower one is less than the
number, and the one at the upper bound is not. -/
theorem searchLoop_spec (presum : List ℤ) (x : ℤ) {low high : ℕ} (hle : low ≤ high)
    (hbefore : ∀ i, low = i + 1 → ∃ p, presum[i]? = some p ∧ p < x)
    (hat : ∃ p, presum[high]? = some p ∧ x ≤ p) :
    ∃ i : ℕ, searchLoop presum x low high = some (i : ℤ) ∧
      (∀ j, i = j + 1 → ∃ p, presum[j]? = some p ∧ p < x) ∧
      ∃ p, presum[i]? = some p ∧ x ≤ p := by
  induction hn : high - low using Nat.strong_induction_on generalizing low high with
  | h n ih =>
      rw [searchLoop]
      by_cases hlt : (low : ℤ) < high
      · have hmid : ((high : ℤ) - low) / 2 + low = ((high - low) / 2 + low : ℕ) := by omega
        rw [if_pos hlt, hmid]
        set mid := (high - low) / 2 + low with hmiddef
        have hinside : mid < presum.length := by
          obtain ⟨q, hq, -⟩ := hat
          have hhigh := (List.getElem?_eq_some_iff.mp hq).1
          omega
        have hp := List.getElem?_eq_getElem hinside
        dsimp only
        rw [Int.toNat_natCast, hp]
        dsimp only
        by_cases hless : presum[mid] < x
        · rw [if_pos hless]
          have hbefore' : ∀ j, mid + 1 = j + 1 → ∃ p, presum[j]? = some p ∧ p < x := by
            intro j hj
            obtain rfl := Nat.succ.inj hj
            exact ⟨_, hp, hless⟩
          have hle' : mid + 1 ≤ high := by omega
          exact ih (high - (mid + 1)) (by omega) hle' hbefore' hat rfl
        · rw [if_neg hless]
          exact ih (mid - low) (by omega) (by omega) hbefore ⟨_, hp, not_lt.mp hless⟩ rfl
      · obtain rfl : low = high := by omega
        rw [if_neg hlt]
        exact ⟨low, rfl, hbefore, hat⟩

/-- The last index of a list that an `int` can count. -/
theorem lastIndex_of_lt {n : ℕ} (hpos : 0 < n) (hlt : n < 2 ^ 31) :
    lastIndex n = ((n - 1 : ℕ) : ℤ) := by
  have hval : (n + (2 ^ 64 - 1)) % 2 ^ 64 % 2 ^ 32 = n - 1 := by omega
  rw [lastIndex, hval, asInt, if_pos (by omega)]

/-- Sums of first weights do not decrease. -/
theorem sum_take_le (h : ∀ s ∈ servers, 0 ≤ s.weight) (hij : i ≤ j) :
    ((weights servers).take i).sum ≤ ((weights servers).take j).sum := by
  refine (List.take_sublist_take_left hij).sum_le_sum fun x hx => ?_
  obtain ⟨s, hs, rfl⟩ := List.mem_map.mp (List.mem_of_mem_take hx)
  exact h s hs

/-- **A number is among those of one server only.** -/
theorem Covers.unique (h : ∀ s ∈ servers, 0 ≤ s.weight) (hi : Covers servers x i)
    (hj : Covers servers x j) : i = j := by
  obtain ⟨-, hilow, hihigh⟩ := hi
  obtain ⟨-, hjlow, hjhigh⟩ := hj
  rcases Nat.lt_trichotomy i j with hlt | heq | hlt
  · have hle := sum_take_le h (Nat.succ_le_of_lt hlt)
    rw [Nat.succ_eq_add_one] at hle
    omega
  · exact heq
  · have hle := sum_take_le h (Nat.succ_le_of_lt hlt)
    rw [Nat.succ_eq_add_one] at hle
    omega

/-- **The search finds the server** among whose numbers the number is. -/
theorem exists_select (h : ∀ s ∈ servers, 0 ≤ s.weight) (hint : (weights servers).sum < 2 ^ 31)
    (hlen : servers.length < 2 ^ 31) (hone : 1 ≤ x) (hx : x ≤ (weights servers).sum) :
    ∃ i : ℕ, select servers x = some (i : ℤ) ∧ Covers servers x i := by
  have hlength : (weights servers).length = servers.length := List.length_map _
  have hpos : 0 < servers.length := by
    refine List.length_pos_of_ne_nil ?_
    rintro rfl
    exact absurd (hone.trans hx) (by decide)
  have hlast : (prefixSums (weights servers))[servers.length - 1]? =
      some (weights servers).sum := by
    rw [getElem?_prefixSums (by omega), List.take_of_length_le (by omega)]
  obtain ⟨i, hi, hbefore, p, hp, hle⟩ := searchLoop_spec (prefixSums (weights servers)) x
    (Nat.zero_le (servers.length - 1)) (fun i hi => absurd hi (by omega)) ⟨_, hlast, hx⟩
  have hinside : i < servers.length := by
    have hlt := (List.getElem?_eq_some_iff.mp hp).1
    rwa [length_prefixSums, hlength] at hlt
  refine ⟨i, ?_, hinside, ?_, ?_⟩
  · rw [select, presums_eq h hint hlen, Option.bind_some, binarySearch, length_prefixSums, hlength,
      lastIndex_of_lt hpos hlen]
    exact hi
  · cases i with
    | zero => exact hone
    | succ j =>
        obtain ⟨q, hq, hlt⟩ := hbefore j rfl
        rw [getElem?_prefixSums (by omega)] at hq
        exact Option.some.inj hq ▸ hlt
  · rw [getElem?_prefixSums (by omega)] at hp
    exact Option.some.inj hp ▸ hle

/-- **The search finds the server that covers the number.** -/
theorem select_eq_some_iff (h : ∀ s ∈ servers, 0 ≤ s.weight)
    (hint : (weights servers).sum < 2 ^ 31) (hlen : servers.length < 2 ^ 31) (hone : 1 ≤ x)
    (hx : x ≤ (weights servers).sum) : select servers x = some (i : ℤ) ↔ Covers servers x i := by
  obtain ⟨j, hj, hcovers⟩ := exists_select h hint hlen hone hx
  rw [hj, Option.some.injEq, Nat.cast_inj]
  exact ⟨fun heq => heq ▸ hcovers, fun hi => hcovers.unique h hi⟩

/-- The numbers of a server are as many as its weight says. -/
theorem card_select (h : ∀ s ∈ servers, 0 ≤ s.weight) (hint : (weights servers).sum < 2 ^ 31)
    (hlen : servers.length < 2 ^ 31) (hs : servers[i]? = some s) :
    (((Finset.range (weights servers).sum.toNat).filter
      fun k : ℕ => select servers (k + 1) = some (i : ℤ)).card : ℤ) = s.weight := by
  have hi : i < servers.length := (List.getElem?_eq_some_iff.mp hs).1
  have hnext : ((weights servers).take (i + 1)).sum =
      ((weights servers).take i).sum + s.weight := by
    rw [List.take_add_one, weights, List.getElem?_map, hs, List.sum_append]
    simp
  have hbelow : 0 ≤ ((weights servers).take i).sum := sum_take_le h (Nat.zero_le i)
  have habove : ((weights servers).take (i + 1)).sum ≤ (weights servers).sum := by
    have hle := sum_take_le h (Nat.succ_le_of_lt hi)
    have hlength : (weights servers).length ≤ servers.length := (List.length_map _).le
    rwa [List.take_of_length_le hlength] at hle
  have hnumbers : (Finset.range (weights servers).sum.toNat).filter
      (fun k : ℕ => select servers (k + 1) = some (i : ℤ)) =
      Finset.Ico ((weights servers).take i).sum.toNat
        ((weights servers).take (i + 1)).sum.toNat := by
    ext k
    rw [Finset.mem_filter, Finset.mem_range, Finset.mem_Ico]
    have hone : 1 ≤ (k : ℤ) + 1 := by omega
    constructor
    · rintro ⟨hk, hselect⟩
      have hx : (k : ℤ) + 1 ≤ (weights servers).sum := by omega
      obtain ⟨-, hlow, hhigh⟩ := (select_eq_some_iff h hint hlen hone hx).mp hselect
      omega
    · rintro ⟨hlow, hhigh⟩
      have hx : (k : ℤ) + 1 ≤ ((weights servers).take (i + 1)).sum := by omega
      have hselect := (select_eq_some_iff h hint hlen hone (hx.trans habove)).mpr
        ⟨hi, by omega, hx⟩
      exact ⟨by omega, hselect⟩
  rw [hnumbers, Nat.card_Ico, hnext]
  have hweight := h s (List.mem_of_getElem? hs)
  omega

/-- **The choice by weight is exact** for fewer than `2 ^ 31` servers. -/
theorem select_exact_iff (servers : List ServerNode) (hweights : ∀ s ∈ servers, 0 ≤ s.weight)
    (hint : (weights servers).sum < 2 ^ 31) :
    SelectsExactly servers ↔ servers.length < 2 ^ 31 := by
  constructor
  · intro hexact
    obtain ⟨state, hstate, -⟩ := Option.map_eq_some_iff.mp hexact.total
    exact (of_presums hstate).2
  · intro hlen
    refine ⟨by rw [presums_eq hweights hint hlen]; rfl,
      fun x hone hx => exists_select hweights hint hlen hone hx,
      fun i s hs => card_select hweights hint hlen hs, ?_⟩
    intro i s hs hzero x hone hx hselect
    obtain ⟨-, hlow, hhigh⟩ := (select_eq_some_iff hweights hint hlen hone hx).mp hselect
    rw [List.take_add_one, weights, List.getElem?_map, hs, List.sum_append] at hhigh
    simp only [Option.map_some, Option.toList_some, List.sum_singleton, hzero, add_zero] at hhigh
    exact absurd hlow (not_lt.mpr hhigh)

/-- A server with a weight. -/
def weighted (weight : ℤ) : ServerNode := { serverAt (ascii "a") 80 with weight }

theorem select_exact_of_three :
    SelectsExactly [weighted 1, weighted 0, weighted 2] ↔ 3 < 2 ^ 31 :=
  select_exact_iff [weighted 1, weighted 0, weighted 2] (by decide) (by decide)

/-- One server with a weight, and too many without one. -/
def tooManyServers : List ServerNode := weighted 1 :: List.replicate (2 ^ 31 - 1) (weighted 0)

/-- The index of the loop overflows. -/
theorem too_many_servers : (∀ s ∈ tooManyServers, 0 ≤ s.weight) ∧
    (weights tooManyServers).sum = 1 ∧ ¬ SelectsExactly tooManyServers := by
  refine ⟨fun s hs => ?_, ?_, fun hexact => ?_⟩
  · rcases List.mem_cons.mp hs with rfl | hs
    · decide
    · rw [List.eq_of_mem_replicate hs]
      decide
  · rw [tooManyServers, weights, List.map_cons, List.map_replicate, List.sum_cons,
      List.sum_replicate]
    rfl
  · obtain ⟨state, hstate, -⟩ := Option.map_eq_some_iff.mp hexact.total
    have hlt := (of_presums hstate).2
    rw [tooManyServers, List.length_cons, List.length_replicate] at hlt
    omega

end Weights

end ArchNet.Balance
