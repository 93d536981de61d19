import ArchNet.HttpUtils
import Mathlib.Logic.Function.Basic

/-!
# Headers That Arrive in Pieces

`http_parser` reports the name and the value of a header in pieces, one for each read that
they reach into, and a piece may be empty. The request of the server and the response of the
client put the pieces together: whether a piece is appended or starts anew is decided by the
parser's state at the callback before.

## Conventions

* Of the two classes the model has the members that the header callbacks read or write.
* `p->state` is an input of a callback, with the values that the parser has there.
* A `std::string` that has been moved from holds an unspecified text (`moved`).
* A `std::map` is a partial function on its keys.

## Main results

* `Collector.collect_header`: **one header is stored once, whole**, however it was cut.
* `headers_assembled`: so is every list of headers, by the server and by the client, whatever
  an earlier request has left in the object.
-/

namespace ArchNet.Http

open Routing (Text)
open HttpClient (Headers lowered)

/-! ### The callbacks -/

/-- The states of `http_parser` in which it reports a piece of a header. -/
inductive HeaderState
  | headerField
  | headerValueStart
  | headerValue
  | headerAlmostDone
  deriving DecidableEq, Repr

/-- Their numbers in `enum state`. -/
def HeaderState.number : HeaderState → UInt8
  | headerField => 51
  | headerValueStart => 52
  | headerValue => 53
  | headerAlmostDone => 55

/-- What the header callbacks keep: the container of the headers, `field`, `value` and
`pre_state`. -/
structure Collector (σ : Type) where
  headers : σ
  field : Text
  value : Text
  preState : UInt8

namespace Collector

variable {σ : Type}

/-- `OnField`, in either class. -/
def onField (c : Collector σ) (state : UInt8) (buf : Text) : Collector σ :=
  { c with field := if c.preState = 51 then c.field ++ buf else buf, preState := state }

/-- `OnValue`, in either class, which differ in how they `put` a header into the container. -/
def onValue (put : σ → Text → Text → σ) (c : Collector σ) (state : UInt8) (buf moved : Text) :
    Collector σ :=
  let value := if c.preState = 53 then c.value ++ buf else buf
  if state = 55 then ⟨put c.headers c.field value, [], moved, state⟩
  else { c with value, preState := state }

end Collector

/-- `HttpRequest::field_value`. -/
abbrev FieldValue := Text → Option Text

/-- The members of `HttpRequest` that collect its headers. -/
abbrev HttpRequest := Collector FieldValue

/-- The members of the client's `Response` that collect its headers. -/
abbrev Response := Collector Headers

/-- `field_value[field] = std::move(value)`. -/
def HttpRequest.put (m : FieldValue) (field value : Text) : FieldValue :=
  Function.update m field (some value)

/-- `headers.emplace(std::move(field), std::move(value))`. -/
def Response.put (m : Headers) (field value : Text) : Headers := m.emplace field value

/-- `HttpRequest::OnValue`. -/
def HttpRequest.onValue : HttpRequest → UInt8 → Text → Text → HttpRequest :=
  Collector.onValue HttpRequest.put

/-- `Response::OnValue`. -/
def Response.onValue : Response → UInt8 → Text → Text → Response :=
  Collector.onValue Response.put

/-- A new `HttpRequest`. -/
def HttpRequest.init : HttpRequest := ⟨fun _ => none, [], [], 0⟩

/-- A new `Response`. -/
def Response.init : Response := ⟨.empty lowered, [], [], 0⟩

/-- `HttpRequest::reset`, which leaves `pre_state` as it is. -/
def HttpRequest.reset (r : HttpRequest) : HttpRequest := ⟨fun _ => none, [], [], r.preState⟩

/-- A call of a header callback. -/
inductive Callback
  | onField (state : HeaderState) (buf : Text)
  | onValue (state : HeaderState) (buf moved : Text)

/-- The callbacks of a class with the given `OnValue`, in turn. -/
def Collector.run {σ : Type} (onValue : Collector σ → UInt8 → Text → Text → Collector σ)
    (c : Collector σ) (calls : List Callback) : Collector σ :=
  calls.foldl (fun c call =>
    match call with
    | .onField state buf => c.onField state.number buf
    | .onValue state buf moved => onValue c state.number buf moved) c

/-! ### Headers in pieces -/

/-- A **header as it is reported**: the pieces of its name and of its value before the last
ones, and the last ones. -/
structure CutHeader where
  nameParts : List Text
  nameLast : Text
  valueParts : List Text
  valueLast : Text
  /-- What the string holds that the complete value has been moved out of. -/
  moved : Text

namespace CutHeader

/-- The header's name. -/
def name (h : CutHeader) : Text := h.nameParts.flatten ++ h.nameLast

/-- The header's value. -/
def value (h : CutHeader) : Text := h.valueParts.flatten ++ h.valueLast

/-- The header. -/
def pair (h : CutHeader) : Text × Text := (h.name, h.value)

/-- The **callbacks** that report it. -/
def callbacks (h : CutHeader) : List Callback :=
  h.nameParts.map (.onField .headerField ·) ++ .onField .headerValueStart h.nameLast ::
    (h.valueParts.map (.onValue .headerValue · h.moved) ++
      [.onValue .headerAlmostDone h.valueLast h.moved])

end CutHeader

/-- The headers that the server holds after those reported. -/
def HttpRequest.receive (r : HttpRequest) (hs : List CutHeader) : FieldValue :=
  (Collector.run HttpRequest.onValue r (hs.flatMap CutHeader.callbacks)).headers

/-- The headers that the client holds after those reported. -/
def Response.receive (r : Response) (hs : List CutHeader) : Headers :=
  (Collector.run Response.onValue r (hs.flatMap CutHeader.callbacks)).headers

namespace Collector

variable {σ : Type} {put : σ → Text → Text → σ} {c : Collector σ}

/-- What the next piece of a name is appended to. -/
def pendingField (c : Collector σ) : Text := if c.preState = 51 then c.field else []

/-- What the next piece of a value is appended to. -/
def pendingValue (c : Collector σ) : Text := if c.preState = 53 then c.value else []

/-- A piece of a name is put behind what is pending. -/
theorem onField_eq (c : Collector σ) (state : UInt8) (buf : Text) :
    c.onField state buf = { c with field := c.pendingField ++ buf, preState := state } := by
  rw [onField, pendingField]
  split
  · rfl
  · rfl

/-- So is a piece of a value, until the last one stores the header. -/
theorem onValue_eq (c : Collector σ) (state : UInt8) (buf moved : Text) :
    c.onValue put state buf moved =
      if state = 55 then ⟨put c.headers c.field (c.pendingValue ++ buf), [], moved, state⟩
      else { c with value := c.pendingValue ++ buf, preState := state } := by
  rw [onValue, pendingValue]
  by_cases h : c.preState = 53
  · rw [if_pos h, if_pos h]
  · rw [if_neg h, if_neg h, List.nil_append]

theorem run_append (c : Collector σ) (l₁ l₂ : List Callback) :
    c.run (onValue put) (l₁ ++ l₂) = (c.run (onValue put) l₁).run (onValue put) l₂ :=
  List.foldl_append

/-- **The pieces of a name before the last** pile up. -/
theorem run_nameParts (put : σ → Text → Text → σ) (c : Collector σ) (parts : List Text) :
    let c' := c.run (onValue put) (parts.map (.onField .headerField ·))
    c'.pendingField = c.pendingField ++ parts.flatten ∧ c'.headers = c.headers := by
  induction parts generalizing c with
  | nil => exact ⟨(List.append_nil _).symm, rfl⟩
  | cons part parts ih =>
      obtain ⟨hpending, hheaders⟩ := ih (c.onField 51 part)
      have hstep : (c.onField 51 part).pendingField = c.pendingField ++ part := by
        rw [onField_eq]
        rfl
      refine ⟨?_, hheaders.trans (by rw [onField_eq])⟩
      rw [List.flatten_cons, ← List.append_assoc, ← hstep]
      exact hpending

/-- **The pieces of a value before the last** pile up, and leave the name alone. -/
theorem run_valueParts (put : σ → Text → Text → σ) (c : Collector σ) (parts : List Text)
    (moved : Text) :
    let c' := c.run (onValue put) (parts.map (.onValue .headerValue · moved))
    c'.pendingValue = c.pendingValue ++ parts.flatten ∧ c'.field = c.field ∧
      c'.headers = c.headers := by
  induction parts generalizing c with
  | nil => exact ⟨(List.append_nil _).symm, rfl, rfl⟩
  | cons part parts ih =>
      obtain ⟨hpending, hfield, hheaders⟩ := ih (c.onValue put 53 part moved)
      have hstep : c.onValue put 53 part moved =
          { c with value := c.pendingValue ++ part, preState := 53 } := by
        rw [onValue_eq, if_neg (by decide)]
      have hnext : (c.onValue put 53 part moved).pendingValue = c.pendingValue ++ part := by
        rw [hstep]
        rfl
      refine ⟨?_, hfield.trans (by rw [hstep]), hheaders.trans (by rw [hstep])⟩
      rw [List.flatten_cons, ← List.append_assoc, ← hnext]
      exact hpending

/-- **One header is stored once, whole**, and nothing of it stays pending. -/
theorem collect_header (c : Collector σ) (hc : c.pendingField = []) (h : CutHeader) :
    c.run (onValue put) h.callbacks = ⟨put c.headers h.name h.value, [], h.moved, 55⟩ := by
  obtain ⟨hname, hheaders⟩ := run_nameParts put c h.nameParts
  rw [CutHeader.callbacks, run_append]
  generalize c.run (onValue put) (h.nameParts.map (.onField .headerField ·)) = c₁ at hname hheaders
  rw [hc, List.nil_append] at hname
  -- The last piece of the name: the state that it leaves starts the value anew.
  have hfield : c₁.onField 52 h.nameLast = { c₁ with field := h.name, preState := 52 } := by
    rw [onField_eq, hname, CutHeader.name]
  change ((c₁.onField 52 h.nameLast).run (onValue put) _) = _
  rw [hfield, run_append]
  obtain ⟨hvalue, hfield', hheaders'⟩ :=
    run_valueParts put { c₁ with field := h.name, preState := 52 } h.valueParts h.moved
  generalize Collector.run (onValue put) { c₁ with field := h.name, preState := 52 }
    (h.valueParts.map (.onValue .headerValue · h.moved)) = c₂ at hvalue hfield' hheaders'
  change c₂.onValue put 55 h.valueLast h.moved = _
  rw [onValue_eq, if_pos rfl, hvalue, hfield', hheaders', hheaders, CutHeader.value]
  rfl

/-- **A list of headers is stored**, each whole and in turn. -/
theorem collect_headers (c : Collector σ) (hc : c.pendingField = []) (hs : List CutHeader) :
    (c.run (onValue put) (hs.flatMap CutHeader.callbacks)).headers =
      (hs.map CutHeader.pair).foldl (fun m p => put m p.1 p.2) c.headers := by
  induction hs generalizing c with
  | nil => rfl
  | cons h hs ih =>
      rw [List.flatMap_cons, run_append, c.collect_header hc h]
      exact ih _ rfl

end Collector

/-! ### The containers -/

/-- **Assignments leave the last value** of each name. -/
theorem HttpRequest.foldl_put (pairs : List (Text × Text)) (m : FieldValue) (name : Text) :
    pairs.foldl (fun m p => HttpRequest.put m p.1 p.2) m name =
      (pairs.reverse.lookup name).or (m name) := by
  induction pairs generalizing m with
  | nil => rfl
  | cons p pairs ih =>
      rw [List.foldl_cons, ih, List.reverse_cons, List.lookup_append, Option.or_assoc]
      congr 1
      rcases eq_or_ne name p.1 with rfl | hne
      · rw [HttpRequest.put, Function.update_self, List.lookup_cons_self]
        rfl
      · rw [HttpRequest.put, Function.update_of_ne hne, List.lookup_cons,
          beq_eq_false_iff_ne.mpr hne]
        rfl

/-- **Emplaced headers are all there**, repeated ones included. -/
theorem Response.foldl_put_perm (pairs : List (Text × Text)) (m : Headers) :
    (pairs.foldl (fun m p => Response.put m p.1 p.2) m).items.Perm (pairs ++ m.items) := by
  induction pairs generalizing m with
  | nil => exact .refl _
  | cons p pairs ih =>
      have hput : (Response.put m p.1 p.2).items.Perm (p :: m.items) :=
        Multimap.items_emplace_perm
      exact (ih _).trans ((hput.append_left pairs).trans List.perm_middle)

/-- **Headers are assembled whatever the cuts.** For every list of headers and every way to
report each of them in pieces, a request that has been reset holds the last value of each
name, and a new response holds the headers, each as often as it came. What an earlier request
has left in the object, `pre_state` included, is of no account. -/
theorem headers_assembled (r : HttpRequest) (hs : List CutHeader) :
    r.reset.receive hs = (fun name => (hs.map CutHeader.pair).reverse.lookup name) ∧
      HttpRequest.init.receive hs = (fun name => (hs.map CutHeader.pair).reverse.lookup name) ∧
      (Response.init.receive hs).items.Perm (hs.map CutHeader.pair) := by
  have hreset : Collector.pendingField r.reset = [] := by
    rw [Collector.pendingField]
    split
    · rfl
    · rfl
  refine ⟨?_, ?_, ?_⟩
  · rw [HttpRequest.receive, HttpRequest.onValue, Collector.collect_headers _ hreset]
    funext name
    exact (HttpRequest.foldl_put _ _ name).trans Option.or_none
  · rw [HttpRequest.receive, HttpRequest.onValue, Collector.collect_headers _ rfl]
    funext name
    exact (HttpRequest.foldl_put _ _ name).trans Option.or_none
  · rw [Response.receive, Response.onValue, Collector.collect_headers _ rfl]
    have hperm := Response.foldl_put_perm (hs.map CutHeader.pair) (.empty lowered)
    rwa [show (Multimap.empty lowered : Headers).items = [] from rfl, List.append_nil] at hperm

end ArchNet.Http
