import ArchNet.LoadBalance
import ArchNet.StrictWeak

/-!
# The Order of Servers

`operator<` of `EndPoint` and of `ServerNode`, which `std::sort` of the resolver uses. The equality
of end points is inverted (`EndPoint.eq_iff`): nodes with different addresses are compared by
weight, and those with one address by host and port.

## Main results

* `lt_iff_layered`: the comparison is one **by weight between addresses**.
* `ordered_iff`: when it is a strict weak ordering that tells addresses apart.
-/

open Bytes

namespace ArchNet

open Routing (Text)

/-- `operator<(s1, s2)` of `EndPoint`. -/
def Net.EndPoint.lt (inet : Net.Inet) (s₁ s₂ : Net.EndPoint) : Bool :=
  if s₁.host ≠ [] ∧ s₂.host ≠ [] then
    if s₁.host = s₂.host then s₁.port < s₂.port else s₁.host < s₂.host
  else Net.toIPPort inet s₁.sockAddr < Net.toIPPort inet s₂.sockAddr

namespace Balance

/-- `operator<(s1, s2)` of `ServerNode`. -/
def ServerNode.lt (inet : Net.Inet) (s₁ s₂ : ServerNode) : Bool :=
  if EndPoint.eq s₁.endpoint.toEndPoint s₂.endpoint.toEndPoint then s₁.weight < s₂.weight
  else Net.EndPoint.lt inet s₁.endpoint s₂.endpoint

/-- The socket address of a node. -/
def ServerNode.sockAddr (s : ServerNode) : SockAddr := s.endpoint.sockAddr

/-- The host and the port of one node come **before** those of another. Nothing comes before or
behind an empty host. -/
def ServerNode.Before (s t : ServerNode) : Prop :=
  s.endpoint.host ≠ [] ∧ t.endpoint.host ≠ [] ∧ (s.endpoint.host < t.endpoint.host ∨
    s.endpoint.host = t.endpoint.host ∧ s.endpoint.port < t.endpoint.port)

section Order

variable {inet : Net.Inet} {s t u : ServerNode} {S : Set ServerNode}

/-- With one address, the order of end points is that of host and port. -/
theorem endPoint_lt_iff (h : s.sockAddr = t.sockAddr) :
    Net.EndPoint.lt inet s.endpoint t.endpoint = true ↔ s.Before t := by
  rw [Net.EndPoint.lt, ServerNode.Before]
  have haddr : s.endpoint.sockAddr = t.endpoint.sockAddr := h
  by_cases hhosts : s.endpoint.host ≠ [] ∧ t.endpoint.host ≠ []
  · rw [if_pos hhosts]
    by_cases heq : s.endpoint.host = t.endpoint.host
    · simp [heq, hhosts, List.lt_irrefl]
    · simp [heq, hhosts]
  · rw [if_neg hhosts, haddr, decide_eq_true_iff]
    exact iff_of_false (List.lt_irrefl _) fun hb => hhosts ⟨hb.1, hb.2.1⟩

/-- The comparison is one **by weight between addresses**. -/
theorem lt_iff_layered : s.lt inet t = true ↔
    Sorting.layered ServerNode.sockAddr ServerNode.weight ServerNode.Before s t := by
  rw [ServerNode.lt]
  by_cases h : s.sockAddr = t.sockAddr
  · have hne : ¬ EndPoint.eq s.endpoint.toEndPoint t.endpoint.toEndPoint = true :=
      fun heq => EndPoint.eq_iff.mp heq h
    rw [if_neg hne, Sorting.layered_of_eq h, endPoint_lt_iff h]
  · rw [if_pos (EndPoint.eq_iff.mpr h), Sorting.layered_of_ne h, decide_eq_true_iff]

theorem ServerNode.Before.trans (hst : s.Before t) (htu : t.Before u) : s.Before u := by
  obtain ⟨hs, -, hlt | ⟨heq, hlt⟩⟩ := hst
  · obtain ⟨-, hu, hlt' | ⟨heq', -⟩⟩ := htu
    · exact ⟨hs, hu, .inl (List.lt_trans hlt hlt')⟩
    · exact ⟨hs, hu, .inl (heq' ▸ hlt)⟩
  · obtain ⟨-, hu, hlt' | ⟨heq', hlt'⟩⟩ := htu
    · exact ⟨hs, hu, .inl (heq ▸ hlt')⟩
    · exact ⟨hs, hu, .inr ⟨heq.trans heq', hlt.trans hlt'⟩⟩

theorem ServerNode.not_before_self : ¬ s.Before s := by
  rintro ⟨-, -, hlt | ⟨-, hlt⟩⟩
  · exact List.lt_irrefl _ hlt
  · exact lt_irrefl _ hlt

/-- Nodes of which neither comes before the other have **one host and port**, or an empty host. -/
theorem eq_of_not_before (hs : s.endpoint.host ≠ []) (ht : t.endpoint.host ≠ [])
    (hst : ¬ s.Before t) (hts : ¬ t.Before s) :
    s.endpoint.host = t.endpoint.host ∧ s.endpoint.port = t.endpoint.port := by
  rcases Std.lt_trichotomy s.endpoint.host t.endpoint.host with hlt | heq | hlt
  · exact absurd ⟨hs, ht, .inl hlt⟩ hst
  · refine ⟨heq, le_antisymm (not_lt.mp fun hlt => ?_) (not_lt.mp fun hlt => ?_)⟩
    · exact hts ⟨ht, hs, .inr ⟨heq.symm, hlt⟩⟩
    · exact hst ⟨hs, ht, .inr ⟨heq, hlt⟩⟩
  · exact absurd ⟨ht, hs, .inl hlt⟩ hts

/-- The **condition** for an order of a set of nodes: nodes with different addresses have different
weights; a node with an empty host does not stand beside two of its address that are in order; and
nodes of one address between which the weight of another lies are in the order of their weights. -/
structure Ordered (S : Set ServerNode) : Prop where
  weight_ne : ∀ s ∈ S, ∀ t ∈ S, s.sockAddr ≠ t.sockAddr → s.weight ≠ t.weight
  no_host : ∀ s ∈ S, ∀ t ∈ S, ∀ u ∈ S, s.sockAddr = t.sockAddr → s.sockAddr = u.sockAddr →
    s.endpoint.host = [] → ¬ t.Before u
  between : ∀ s ∈ S, ∀ t ∈ S, ∀ u ∈ S, s.sockAddr = t.sockAddr → u.sockAddr ≠ s.sockAddr →
    s.weight < u.weight → u.weight < t.weight → s.Before t

/-- Host and port are a strict weak ordering where no empty host stands beside two that differ. -/
theorem strictWeakOn_before_iff : Sorting.StrictWeakOn S ServerNode.Before ↔
    ∀ s ∈ S, ∀ t ∈ S, ∀ u ∈ S, s.endpoint.host = [] → ¬ t.Before u := by
  constructor
  · intro h s hs t ht u hu hempty
    exact h.equiv t ht s hs u hu (fun hb => hb.2.1 hempty) (fun hb => hb.1 hempty)
      (fun hb => hb.1 hempty) fun hb => hb.2.1 hempty
  · intro h
    refine ⟨fun _ _ => ServerNode.not_before_self, fun _ _ _ _ _ _ => ServerNode.Before.trans, ?_⟩
    intro s hs t ht u hu hst hts htu hut hsu
    have htne : t.endpoint.host ≠ [] := fun hempty => h t ht s hs u hu hempty hsu
    obtain ⟨hhost, hport⟩ := eq_of_not_before hsu.1 htne hst hts
    refine htu ⟨htne, hsu.2.1, ?_⟩
    rw [← hhost, ← hport]
    exact hsu.2.2

/-- **When the nodes of a set are ordered**, with addresses told apart. -/
theorem ordered_iff : Sorting.StrictWeakOn S (fun s t => s.lt inet t = true) ∧
    Sorting.SeparatesOn S ServerNode.sockAddr (fun s t => s.lt inet t = true) ↔ Ordered S := by
  simp only [lt_iff_layered]
  rw [Sorting.layered_iff]
  constructor
  · rintro ⟨hne, hweak, hbetween⟩
    refine ⟨hne, fun s hs t ht u hu hst hsu hempty => ?_, hbetween⟩
    exact strictWeakOn_before_iff.mp (hweak s.sockAddr) s ⟨hs, rfl⟩ t ⟨ht, hst.symm⟩ u
      ⟨hu, hsu.symm⟩ hempty
  · rintro ⟨hne, hhost, hbetween⟩
    refine ⟨hne, fun k => strictWeakOn_before_iff.mpr ?_, hbetween⟩
    rintro s ⟨hs, rfl⟩ t ⟨ht, hst⟩ u ⟨hu, hsu⟩
    exact hhost s hs t ht u hu hst.symm hsu.symm

end Order

end Balance

end ArchNet
