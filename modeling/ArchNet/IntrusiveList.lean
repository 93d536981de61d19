import ArchNet.Rings

/-!
# The Intrusive List

`__intrusive_list_node` and `intrusive_list` of `utils/list.h`: nodes carry the links of the ring
they are in, and a list is a pointer to its first node.

## Conventions

* `Links` are the links of all nodes, which their constructor sets to the node itself. A program has
  lists under the names `ι`; a list that a split returns is one that was not there before.
* `none` stands for an assertion that fails and for a member of a null pointer.
* A node is pushed that is in no list, and pointers given to `erase` and to a split are members of
  the list; the two lists of a concatenation differ.
-/

open Rings

namespace ArchNet.IntrusiveList

variable {ι α : Type*}

/-! ### The nodes -/

section Nodes

variable [DecidableEq α]

/-- `single()`. -/
def single (h : Links α) (x : α) : Bool := h.prev x = x || h.next x = x

/-- `remove_from_list()`: the links, and the node behind. -/
def removeFromList (h : Links α) (x : α) : Links α × Option α :=
  if single h x then (h, none)
  else
    let h := h.setPrev (h.next x) (h.prev x)
    let h := h.setNext (h.prev x) (h.next x)
    let next := h.next x
    ((h.setNext x x).setPrev x x, some next)

/-- `insert_between(prev, next)`. -/
def insertBetween (h : Links α) (x prev next : α) : Links α :=
  if single h x then
    (((h.setNext prev x).setPrev next x).setPrev x prev).setNext x next
  else h

/-- `insert_before(ptr)` and `insert_tail(ptr)`. -/
def insertBefore (h : Links α) (x ptr : α) : Links α := insertBetween h ptr (h.prev x) x

/-- `insert_list_between(prev, next)`. -/
def insertListBetween (h : Links α) (a prev next : α) : Links α :=
  let b := h.prev a
  (((h.setNext prev a).setPrev a prev).setPrev next b).setNext b next

/-- `insert_list_before(ptr)` and `insert_list_tail(ptr)`. -/
def insertListBefore (h : Links α) (x ptr : α) : Links α := insertListBetween h ptr (h.prev x) x

/-- `split(ptr)`, with its assertions. -/
def split (h : Links α) (x ptr : α) : Option (Links α) :=
  if ptr = x ∨ single h x = true then none
  else
    let frontTail := h.prev ptr
    let backTail := h.prev x
    some ((((h.setPrev x frontTail).setNext frontTail x).setPrev ptr backTail).setNext backTail ptr)

end Nodes

/-! ### The list -/

section List

variable [DecidableEq α]

/-- `push_back(ptr)`. -/
def pushBack (h : Links α) (node : Option α) (ptr : α) : Links α × Option α :=
  match node with
  | none => (h, some ptr)
  | some n => (insertBefore h n ptr, some n)

/-- `push_back(lst)` of a list; `lst` is empty afterwards. -/
def pushBackList (h : Links α) (node lst : Option α) : Option (Links α × Option α) :=
  match node with
  | none => some (h, lst)
  | some n => lst.map fun l => (insertListBefore h n l, some n)

/-- `push_front(ptr)`. -/
def pushFront (h : Links α) (node : Option α) (ptr : α) : Links α × Option α :=
  match node with
  | none => (h, some ptr)
  | some n => (insertBefore h n ptr, some ptr)

/-- `pop_front()`: the links, the first node, and the result. -/
def popFront (h : Links α) (node : Option α) : Links α × Option α × Option α :=
  match node with
  | none => (h, none, none)
  | some n =>
      let (h, nx) := removeFromList h n
      (h, nx, some n)

/-- `pop_back()`. -/
def popBack (h : Links α) (node : Option α) : Links α × Option α × Option α :=
  match node with
  | none => (h, none, none)
  | some n =>
      let rst := h.prev n
      if rst = n then (h, none, some rst) else ((removeFromList h rst).1, some n, some rst)

/-- `erase(ptr)`. -/
def erase (h : Links α) (node : Option α) (ptr : α) : Links α × Option α × Option α :=
  let (h, nx) := removeFromList h ptr
  (h, if node = some ptr then nx else node, nx)

/-- `split_front_inclusive(ptr)`: the links, the first node, and that of the list returned. -/
def splitFrontInclusive (h : Links α) (node ptr : Option α) :
    Option (Links α × Option α × Option α) :=
  match node, ptr with
  | some n, some p =>
      if h.next p = n then some (h, none, some n)
      else (split h n (h.next p)).map fun h' => (h', some (h.next p), some n)
  | node, _ => some (h, node, none)

/-- `split_front_exclusive(ptr)`. -/
def splitFrontExclusive (h : Links α) (node ptr : Option α) :
    Option (Links α × Option α × Option α) :=
  match ptr with
  | none => some (h, none, node)
  | some p =>
      match node with
      | none => some (h, none, none)
      | some n =>
          if p = n then some (h, node, none)
          else (split h n p).map fun h' => (h', some p, some n)

/-- The loop of `split_by_predicate`, from a node on; the fuel bounds the rounds. -/
def firstNotFit (h : Links α) (pred : α → Bool) (last : α) : ℕ → α → Option (Option α)
  | 0, _ => none
  | fuel + 1, x =>
      if pred x then
        if h.next x = last then some none else firstNotFit h pred last fuel (h.next x)
      else some (some x)

/-- `split_by_predicate(pred)`. -/
def splitByPredicate (h : Links α) (node : Option α) (pred : α → Bool) (fuel : ℕ) :
    Option (Links α × Option α × Option α) :=
  match node with
  | none => some (h, none, none)
  | some n => (firstNotFit h pred n fuel n).bind fun ptr => splitFrontExclusive h node ptr

/-- The nodes from one on, as an iterator meets them. -/
def traverse (h : Links α) (last : α) : ℕ → α → Option (List α)
  | 0, _ => none
  | fuel + 1, x =>
      if h.next x = last then some [x] else (traverse h last fuel (h.next x)).map (x :: ·)

end List

/-! ### Runs -/

/-- The links of all nodes, and the lists of a program. -/
structure Lists (ι α : Type*) where
  links : Links α
  node : ι → Option α

/-- What is called on the lists. -/
inductive Op (ι α : Type*)
  | pushBack (i : ι) (x : α)
  | pushFront (i : ι) (x : α)
  | popFront (i : ι)
  | popBack (i : ι)
  | erase (i : ι) (x : α)
  | concat (i j : ι)
  | splitInclusive (i : ι) (ptr : Option α) (j : ι)
  | splitExclusive (i : ι) (ptr : Option α) (j : ι)
  | splitByPredicate (i : ι) (pred : α → Bool) (j : ι)

section Naming

variable [DecidableEq ι]

/-- A list after a call. -/
def Lists.set (s : Lists ι α) (i : ι) (h : Links α) (node : Option α) : Lists ι α :=
  { links := h, node := Function.update s.node i node }

theorem Lists.node_set_self (s : Lists ι α) (i : ι) (h : Links α) (node : Option α) :
    (s.set i h node).node i = node := Function.update_self ..

theorem Lists.set_self (s : Lists ι α) (i : ι) : s.set i s.links (s.node i) = s := by
  rw [Lists.set, Function.update_eq_self]

theorem Lists.node_set_of_ne {i k : ι} (hk : k ≠ i) (s : Lists ι α) (h : Links α)
    (node : Option α) : (s.set i h node).node k = s.node k := Function.update_of_ne hk ..

/-- Both lists after a split. -/
def Lists.setSplit (s : Lists ι α) (i j : ι) (result : Links α × Option α × Option α) :
    Lists ι α :=
  (s.set i result.1 result.2.1).set j result.1 result.2.2

end Naming

section Runs

variable [DecidableEq ι] [DecidableEq α]

/-- One call, and what it returns. -/
def step (fuel : ℕ) (s : Lists ι α) : Op ι α → Option (Lists ι α × Option α)
  | .pushBack i x =>
      let (h, node) := pushBack s.links (s.node i) x
      some (s.set i h node, none)
  | .pushFront i x =>
      let (h, node) := pushFront s.links (s.node i) x
      some (s.set i h node, none)
  | .popFront i =>
      let (h, node, rst) := popFront s.links (s.node i)
      some (s.set i h node, rst)
  | .popBack i =>
      let (h, node, rst) := popBack s.links (s.node i)
      some (s.set i h node, rst)
  | .erase i x =>
      let (h, node, nx) := erase s.links (s.node i) x
      some (s.set i h node, nx)
  | .concat i j =>
      (pushBackList s.links (s.node i) (s.node j)).map fun (h, node) =>
        ((s.set i h node).set j h none, none)
  | .splitInclusive i ptr j =>
      (splitFrontInclusive s.links (s.node i) ptr).map fun result => (s.setSplit i j result, none)
  | .splitExclusive i ptr j =>
      (splitFrontExclusive s.links (s.node i) ptr).map fun result => (s.setSplit i j result, none)
  | .splitByPredicate i pred j =>
      (splitByPredicate s.links (s.node i) pred fuel).map fun result =>
        (s.setSplit i j result, none)

/-- A run, and what its calls return. -/
def run (fuel : ℕ) (s : Lists ι α) : List (Op ι α) → Option (Lists ι α × List (Option α))
  | [] => some (s, [])
  | op :: ops =>
      (step fuel s op).bind fun (s, rst) =>
        (run fuel s ops).map fun (s, results) => (s, rst :: results)

/-- No lists, and nodes that have been constructed. -/
def constructed : Lists ι α where
  links := { prev := id, next := id }
  node _ := none

end Runs

end ArchNet.IntrusiveList
