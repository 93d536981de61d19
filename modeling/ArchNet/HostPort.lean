import ArchNet.EndPoint
import ArchNet.Trie

/-!
# Hosts and Ports

`SplitHostPort`, `ParseFromIPPort` and `ToIPPort` of `socket.cpp`, and `EndPoint::from`: texts of
the form `host:port` and the socket addresses they stand for.

## Conventions

* `inet_ntop` and `inet_pton` are a parameter (`Inet`); what is assumed of them is said for one
  address at a time (`Inet.Inverts`).
* `none` stands for undefined behaviour: `rbegin` of an empty text, and `atoi` of a number that
  no `int` holds.
* A socket address is its 128 bytes. The ports in it are in network order.

## Main results

* `splitHostPort_iff`: **which texts are split as their form asks**, and that the text of a socket
  address always comes back.
-/

open Bytes

namespace ArchNet.Net

open Routing (Text cstr cstr_eq_self isspace)

/-! ### The code -/

/-- The byte `':'`. -/
def colon : UInt8 := 58

/-- The byte `'['`. -/
def openBracket : UInt8 := 91

/-- The byte `']'`. -/
def closeBracket : UInt8 := 93

/-- `isdigit`. -/
def isdigit (c : UInt8) : Bool := 48 ≤ c && c ≤ 57

/-- `atoi`: blanks, a sign, and digits. -/
def atoi (s : Text) : Option ℤ :=
  let s := s.dropWhile isspace
  let value : ℤ :=
    match s with
    | 45 :: s => -decimalVal (s.takeWhile isdigit)
    | 43 :: s => decimalVal (s.takeWhile isdigit)
    | s => decimalVal (s.takeWhile isdigit)
  if -2 ^ 31 ≤ value ∧ value < 2 ^ 31 then some value else none

/-- What stands before and behind the position that `rfind(c)` gives. -/
def splitLast (c : UInt8) : Text → Option (Text × Text)
  | [] => none
  | d :: s =>
      match splitLast c s with
      | some (front, back) => some (d :: front, back)
      | none => if d = c then some ([], s) else none

/-- The end of `SplitHostPort`: a closing bracket at the end is dropped. -/
def trimBracket (host : Text) (port : ℤ) : Option (Bool × Text × ℤ) :=
  host.getLast?.map fun c => (true, if c = closeBracket then host.dropLast else host, port)

/-- `SplitHostPort(a, host, port)`: the result, and the two arguments afterwards. -/
def splitHostPort (a host : Text) (port : ℤ) : Option (Bool × Text × ℤ) :=
  match splitLast colon a with
  | none => some (false, host, port)
  | some (front, back) =>
      if back = [] then some (false, host, port)
      else
        (atoi (cstr back)).bind fun port =>
          if front.head? = some openBracket then
            if front.getLast? = some closeBracket then trimBracket front.tail.dropLast port
            else some (false, front, port)
          else trimBracket front port

/-- `AF_INET` and `AF_INET6`. -/
inductive Family
  | inet
  | inet6
  deriving DecidableEq, Repr

/-- The number of a family. -/
def Family.number : Family → ℕ
  | inet => 2
  | inet6 => 10

/-- How many bytes an address has. -/
def Family.size : Family → ℕ
  | inet => 4
  | inet6 => 16

/-- Where `sin_addr` and `sin6_addr` stand: behind the family and the port, and in
`sockaddr_in6` behind `sin6_flowinfo`. -/
def Family.offset : Family → ℕ
  | inet => 4
  | inet6 => 8

/-- `inet_ntop` and `inet_pton`. -/
structure Inet where
  ntop : Family → List UInt8 → Text
  pton : Family → Text → Option (List UInt8)
  length_pton : ∀ {f t a}, pton f t = some a → a.length = f.size

/-- The bytes of a `sockaddr_in` or `sockaddr_in6` that was zero before; `htons(port)` takes the
port modulo `2 ^ 16`. -/
def sockAddrBytes (f : Family) (port : ℤ) (a : List UInt8) : List UInt8 :=
  hostBytes 2 f.number ++ (beBytes 2 (port % 2 ^ 16).toNat ++
    (List.replicate (f.offset - 4) 0 ++ (a ++ List.replicate (128 - f.offset - f.size) 0)))

/-- The bytes of an address fill a `sockaddr_storage`. -/
theorem length_sockAddrBytes {f : Family} {a : List UInt8} (h : a.length = f.size) (port : ℤ) :
    (sockAddrBytes f port a).length = 128 := by
  cases f with
  | inet => simp [sockAddrBytes, hostBytes, h, Family.size, Family.offset]
  | inet6 => simp [sockAddrBytes, hostBytes, h, Family.size, Family.offset]

/-- `memset(&ss, 0, sizeof(ss))`. -/
def zeroSockAddr : SockAddr := ⟨List.replicate 128 0, List.length_replicate⟩

/-- The family that `ParseFromIPPort` takes a host for. -/
def familyOf (host : Text) : Family := if colon ∈ host then .inet6 else .inet

/-- `ParseFromIPPort(host, port, ss, is_v6)`: the result, `ss`, and `is_v6` if it is set. -/
def parseFromIPPort (inet : Inet) (host : Text) (port : ℤ) : Bool × SockAddr × Option Bool :=
  match h : inet.pton (familyOf host) (cstr host) with
  | none => (false, zeroSockAddr, none)
  | some a =>
      (true, ⟨sockAddrBytes (familyOf host) port a,
        length_sockAddrBytes (inet.length_pton h) port⟩, some (familyOf host = .inet6))

/-- `ss_family`. -/
def family (ss : SockAddr) : ℕ := hostVal (span ss.bytes 0 2)

/-- `ntohs(sin_port)` and `ntohs(sin6_port)`. -/
def portOf (ss : SockAddr) : ℕ := beVal (span ss.bytes 2 2)

/-- `sin_addr` and `sin6_addr`. -/
def addressOf (f : Family) (ss : SockAddr) : List UInt8 := span ss.bytes f.offset f.size

/-- `ToIPPort(ss)`. -/
def toIPPort (inet : Inet) (ss : SockAddr) : Text :=
  let saddr :=
    if family ss = Family.inet.number then inet.ntop .inet (addressOf .inet ss)
    else if family ss = Family.inet6.number then
      openBracket :: inet.ntop .inet6 (addressOf .inet6 ss) ++ [closeBracket]
    else []
  if saddr = [] then saddr else saddr ++ colon :: decimal (portOf ss)

/-- `SocketType::Type`. -/
inductive SocketType
  | ipv4
  | ipv6
  | unix
  deriving DecidableEq, Repr

/-- `EndPoint`: what its equality reads, and the other members. -/
structure EndPoint extends ArchNet.EndPoint where
  host : Text
  port : ℤ
  type : SocketType
  deriving DecidableEq

/-- `EndPoint::from(host, port)`. -/
def EndPoint.from (inet : Inet) (s : EndPoint) (host : Text) (port : ℤ) : Bool × EndPoint :=
  let (ok, sockAddr, isV6) := parseFromIPPort inet host port
  (ok, { s with host, port, sockAddr, type := if isV6 = some true then .ipv6 else s.type })

/-- `EndPoint::from(addr)`. -/
def EndPoint.fromText (inet : Inet) (s : EndPoint) (addr : Text) : Option (Bool × EndPoint) :=
  (splitHostPort addr s.host s.port).map fun (ok, host, port) =>
    if ok then s.from inet host port else (false, { s with host, port })

/-! ### The form of a text -/

/-- A host is not empty and has no brackets. -/
def IsHost (h : Text) : Prop := h ≠ [] ∧ openBracket ∉ h ∧ closeBracket ∉ h

/-- A port is a decimal number up to 65535. -/
def IsPort (p : Text) (n : ℕ) : Prop :=
  p ≠ [] ∧ (∀ c ∈ p, isdigit c = true) ∧ decimalVal p = n ∧ n ≤ 65535

/-- `host:port`, `[host]:port` and `host]:port`; only between brackets or before one may a host have
colons. -/
inductive HostPort : Text → Text → ℕ → Prop
  | plain {h p : Text} {n : ℕ} (hh : IsHost h) (hc : colon ∉ h) (hp : IsPort p n) :
      HostPort (h ++ colon :: p) h n
  | bracketed {h p : Text} {n : ℕ} (hh : IsHost h) (hp : IsPort p n) :
      HostPort ((openBracket :: h ++ [closeBracket]) ++ colon :: p) h n
  | closing {h p : Text} {n : ℕ} (hh : IsHost h) (hp : IsPort p n) :
      HostPort ((h ++ [closeBracket]) ++ colon :: p) h n

/-- What may stand before the last colon, with the host in it. -/
def IsFront (front h : Text) : Prop :=
  IsHost h ∧ (front = h ∧ colon ∉ h ∨ front = openBracket :: h ++ [closeBracket] ∨
    front = h ++ [closeBracket])

/-- `SplitHostPort` **does what the form of the text asks**: it accepts exactly the texts of the
form, and returns their hosts and ports. -/
def SplitsRight (a : Text) : Prop :=
  ∀ host₀ port₀, ∃ ok host port, splitHostPort a host₀ port₀ = some (ok, host, port) ∧
    (ok = true ↔ ∃ h n, HostPort a h n) ∧ ∀ h n, HostPort a h n → host = h ∧ port = n

/-- When it does: nothing stands behind the last colon, or there is none; or the text begins with a
bracket that is not closed; or it has the form. -/
def Splittable (a : Text) : Prop :=
  ∀ front back, splitLast colon a = some (front, back) → back = [] ∨
    ((atoi (cstr back)).isSome = true ∧ front.head? = some openBracket ∧
      front.getLast? ≠ some closeBracket) ∨
    (∃ n, IsPort back n) ∧ ∃ h, IsFront front h

section Splitting

variable {c : UInt8} {a front back h p t : Text} {n : ℕ}

/-- There is no last separator exactly if there is none. -/
theorem splitLast_eq_none_iff : splitLast c a = none ↔ c ∉ a := by
  induction a with
  | nil => simp [splitLast]
  | cons d a ih =>
      rw [splitLast]
      cases hrest : splitLast c a with
      | some x =>
          have hmem : c ∈ a := not_not.mp fun hn => by simp [ih.mpr hn] at hrest
          exact iff_of_false (Option.some_ne_none _) (not_not_intro (List.mem_cons_of_mem _ hmem))
      | none =>
          dsimp only
          have hnot := ih.mp hrest
          by_cases hd : d = c
          · rw [if_pos hd]
            exact iff_of_false (Option.some_ne_none _) (not_not_intro (hd ▸ List.mem_cons_self))
          · rw [if_neg hd]
            exact iff_of_true rfl (List.not_mem_cons_of_ne_of_not_mem (Ne.symm hd) hnot)

/-- The text is split **at the last occurrence**. -/
theorem splitLast_append (hback : c ∉ back) :
    splitLast c (front ++ c :: back) = some (front, back) := by
  induction front with
  | nil => rw [List.nil_append, splitLast, splitLast_eq_none_iff.mpr hback, if_pos rfl]
  | cons d front ih => rw [List.cons_append, splitLast, ih]

/-- The text around the last separator. -/
theorem of_splitLast (hsplit : splitLast c a = some (front, back)) :
    a = front ++ c :: back ∧ c ∉ back := by
  induction a generalizing front with
  | nil => cases hsplit
  | cons d a ih =>
      rw [splitLast] at hsplit
      cases hrest : splitLast c a with
      | some x =>
          obtain ⟨front', back'⟩ := x
          rw [hrest] at hsplit
          obtain ⟨rfl, rfl⟩ := Prod.mk.inj (Option.some.inj hsplit)
          obtain ⟨rfl, hback⟩ := ih hrest
          exact ⟨rfl, hback⟩
      | none =>
          rw [hrest] at hsplit
          by_cases hd : d = c
          · rw [if_pos hd] at hsplit
            obtain ⟨rfl, rfl⟩ := Prod.mk.inj (Option.some.inj hsplit)
            exact ⟨by rw [hd, List.nil_append], splitLast_eq_none_iff.mp hrest⟩
          · rw [if_neg hd] at hsplit
            cases hsplit

/-- A port consists of digits. -/
theorem not_mem_of_isPort {c : UInt8} (hp : IsPort p n) (hc : isdigit c = false) : c ∉ p := by
  intro hmem
  rw [hp.2.1 c hmem] at hc
  cases hc

/-- A text has the form exactly if what stands before and behind its last colon has. -/
theorem hostPort_iff : HostPort a h n ↔
    ∃ front back, splitLast colon a = some (front, back) ∧ IsPort back n ∧ IsFront front h := by
  constructor
  · rintro (⟨hh, hc, hp⟩ | ⟨hh, hp⟩ | ⟨hh, hp⟩)
    · exact ⟨_, _, splitLast_append (not_mem_of_isPort hp rfl), hp, hh, .inl ⟨rfl, hc⟩⟩
    · exact ⟨_, _, splitLast_append (not_mem_of_isPort hp rfl), hp, hh, .inr (.inl rfl)⟩
    · exact ⟨_, _, splitLast_append (not_mem_of_isPort hp rfl), hp, hh, .inr (.inr rfl)⟩
  · rintro ⟨front, back, hsplit, hp, hh, ⟨rfl, hc⟩ | rfl | rfl⟩
    · rw [(of_splitLast hsplit).1]
      exact .plain hh hc hp
    · rw [(of_splitLast hsplit).1]
      exact .bracketed hh hp
    · rw [(of_splitLast hsplit).1]
      exact .closing hh hp

theorem bounds_of_isdigit {d : UInt8} (h : isdigit d = true) : 48 ≤ d.toNat ∧ d.toNat ≤ 57 := by
  rw [isdigit, Bool.and_eq_true, decide_eq_true_eq, decide_eq_true_eq] at h
  exact ⟨UInt8.le_iff_toNat_le.mp h.1, UInt8.le_iff_toNat_le.mp h.2⟩

theorem isspace_of_isdigit {d : UInt8} (h : isdigit d = true) : isspace d = false := by
  obtain ⟨hlow, -⟩ := bounds_of_isdigit h
  rw [isspace, Bool.or_eq_false_iff, Bool.and_eq_false_iff, beq_eq_false_iff_ne,
    decide_eq_false_iff_not, decide_eq_false_iff_not, UInt8.le_iff_toNat_le, UInt8.le_iff_toNat_le]
  refine ⟨?_, .inr ?_⟩
  · rintro rfl
    exact absurd hlow (by decide)
  · exact fun hle => absurd (hlow.trans hle) (by decide)

/-- The digits of a port are read as its number. -/
theorem atoi_of_isPort (hp : IsPort p n) : atoi (cstr p) = some (n : ℤ) := by
  rw [cstr_eq_self (not_mem_of_isPort hp rfl)]
  obtain ⟨hne, hdigits, hval, hle⟩ := hp
  obtain ⟨d, p, rfl⟩ := List.exists_cons_of_ne_nil hne
  have hd := hdigits d List.mem_cons_self
  have hspace : (d :: p).dropWhile isspace = d :: p :=
    List.dropWhile_cons_of_neg (by rw [isspace_of_isdigit hd]; exact Bool.false_ne_true)
  have htake : (d :: p).takeWhile isdigit = d :: p := List.takeWhile_eq_self_iff.mpr hdigits
  have hfits : (-2 ^ 31 : ℤ) ≤ n ∧ (n : ℤ) < 2 ^ 31 := by omega
  rw [atoi, hspace]
  split
  · next heq => exact absurd ((List.cons.inj heq).1 ▸ hd) (by decide)
  · next heq => exact absurd ((List.cons.inj heq).1 ▸ hd) (by decide)
  · rw [htake, hval, if_pos hfits]

/-- A host without brackets is left as it is. -/
theorem trimBracket_of_isHost (hh : IsHost h) (port : ℤ) :
    trimBracket h port = some (true, h, port) := by
  obtain ⟨hne, -, hclose⟩ := hh
  have hlast : h.getLast hne ≠ closeBracket := fun heq => hclose (heq ▸ List.getLast_mem hne)
  rw [trimBracket, List.getLast?_eq_some_getLast hne, Option.map_some, if_neg hlast]

/-- A host does not begin with a bracket. -/
theorem head?_ne_openBracket (hh : IsHost h) : (h ++ t).head? ≠ some openBracket := by
  obtain ⟨d, h, rfl⟩ := List.exists_cons_of_ne_nil hh.1
  rw [List.cons_append, List.head?_cons]
  intro heq
  exact hh.2.1 (Option.some.inj heq ▸ List.mem_cons_self)

/-- **A text of the form is split** into its host and its port. -/
theorem splitHostPort_of_isFront (hsplit : splitLast colon a = some (front, back))
    (hp : IsPort back n) (hf : IsFront front h) (host₀ : Text) (port₀ : ℤ) :
    splitHostPort a host₀ port₀ = some (true, h, (n : ℤ)) := by
  rw [splitHostPort, hsplit]
  dsimp only
  rw [if_neg hp.1, atoi_of_isPort hp, Option.bind_some]
  obtain ⟨hh, ⟨rfl, -⟩ | rfl | rfl⟩ := hf
  · have hhead := head?_ne_openBracket (t := []) hh
    rw [List.append_nil] at hhead
    rw [if_neg hhead, trimBracket_of_isHost hh]
  · rw [List.cons_append, List.head?_cons, if_pos rfl, ← List.cons_append, List.getLast?_concat,
      if_pos rfl, List.cons_append, List.tail_cons, List.dropLast_concat, trimBracket_of_isHost hh]
  · rw [if_neg (head?_ne_openBracket hh), trimBracket, List.getLast?_concat, Option.map_some,
      if_pos rfl, List.dropLast_concat]

/-- `trim_bracket` never says no. -/
theorem ok_of_trimBracket {ok : Bool} {host host' : Text} {port port' : ℤ}
    (h : trimBracket host port = some (ok, host', port')) : ok = true := by
  obtain ⟨c, -, heq⟩ := Option.map_eq_some_iff.mp h
  exact (Prod.mk.inj heq).1.symm

/-- What a text that begins with a bracket without its counterpart has before the colon is no
front. -/
theorem not_isFront (hopen : front.head? = some openBracket)
    (hclose : front.getLast? ≠ some closeBracket) : ¬ IsFront front h := by
  rintro ⟨hh, ⟨rfl, -⟩ | rfl | rfl⟩
  · exact head?_ne_openBracket (t := []) hh (by rwa [List.append_nil])
  · exact hclose List.getLast?_concat
  · exact hclose List.getLast?_concat

/-- A text without the form is to be rejected. -/
theorem splitsRight_of_rejected (hnone : ∀ h n, ¬ HostPort a h n)
    (hresult : ∀ host₀ port₀, ∃ host port, splitHostPort a host₀ port₀ = some (false, host, port)) :
    SplitsRight a := by
  intro host₀ port₀
  obtain ⟨host, port, hresult⟩ := hresult host₀ port₀
  exact ⟨false, host, port, hresult,
    iff_of_false Bool.false_ne_true fun ⟨h, n, hform⟩ => hnone h n hform,
    fun h n hform => absurd hform (hnone h n)⟩

/-- Under the condition `split_host_port` answers as it should. -/
theorem splitsRight_of_splittable (hs : Splittable a) : SplitsRight a := by
  cases hsplit : splitLast colon a with
  | none =>
      refine splitsRight_of_rejected (fun h n hform => ?_) fun host₀ port₀ =>
        ⟨host₀, port₀, by rw [splitHostPort, hsplit]⟩
      obtain ⟨front, back, hsome, -⟩ := hostPort_iff.mp hform
      rw [hsplit] at hsome
      cases hsome
  | some x =>
      obtain ⟨front, back⟩ := x
      -- Every form that the text has is one of what stands around this colon.
      have hform : ∀ h n, HostPort a h n → IsPort back n ∧ IsFront front h := by
        intro h n hform
        obtain ⟨front', back', hsome, hp, hf⟩ := hostPort_iff.mp hform
        obtain ⟨rfl, rfl⟩ := Prod.mk.inj (Option.some.inj (hsplit.symm.trans hsome))
        exact ⟨hp, hf⟩
      by_cases hback : back = []
      · refine splitsRight_of_rejected (fun h n hf => (hform h n hf).1.1 hback)
          fun host₀ port₀ => ⟨host₀, port₀, ?_⟩
        rw [splitHostPort, hsplit]
        exact if_pos hback
      rcases hs front back hsplit with hnil | ⟨hatoi, hopen, hclose⟩ | ⟨⟨n, hp⟩, h, hf⟩
      · exact absurd hnil hback
      · obtain ⟨port, hport⟩ := Option.isSome_iff_exists.mp hatoi
        refine splitsRight_of_rejected (fun h n hf => not_isFront hopen hclose (hform h n hf).2)
          fun host₀ port₀ => ⟨front, port, ?_⟩
        rw [splitHostPort, hsplit]
        dsimp only
        rw [if_neg hback, hport, Option.bind_some, if_pos hopen, if_neg hclose]
      · intro host₀ port₀
        have hresult := splitHostPort_of_isFront hsplit hp hf host₀ port₀
        refine ⟨true, h, n, hresult, ?_, ?_⟩
        · exact iff_of_true rfl ⟨h, n, hostPort_iff.mpr ⟨front, back, hsplit, hp, hf⟩⟩
        · intro h' n' hform'
          obtain ⟨hp', hf'⟩ := hform h' n' hform'
          rw [splitHostPort_of_isFront hsplit hp' hf' host₀ port₀] at hresult
          obtain ⟨-, heq⟩ := Prod.mk.inj (Option.some.inj hresult)
          obtain ⟨hh, hn⟩ := Prod.mk.inj heq
          exact ⟨hh.symm, hn.symm⟩

/-- It answers as it should under no other condition. -/
theorem splittable_of_splitsRight (hs : SplitsRight a) : Splittable a := by
  intro front back hsplit
  by_cases hback : back = []
  · exact .inl hback
  obtain ⟨ok, host, port, hresult, hok, -⟩ := hs [] 0
  rw [splitHostPort, hsplit] at hresult
  dsimp only at hresult
  rw [if_neg hback] at hresult
  obtain ⟨port', hport, hresult⟩ := Option.bind_eq_some_iff.mp hresult
  have hright : ok = true → (∃ n, IsPort back n) ∧ ∃ h, IsFront front h := by
    intro htrue
    obtain ⟨h, n, hform⟩ := hok.mp htrue
    obtain ⟨front', back', hsome, hp, hf⟩ := hostPort_iff.mp hform
    obtain ⟨rfl, rfl⟩ := Prod.mk.inj (Option.some.inj (hsplit.symm.trans hsome))
    exact ⟨⟨n, hp⟩, h, hf⟩
  by_cases hopen : front.head? = some openBracket
  · rw [if_pos hopen] at hresult
    by_cases hclose : front.getLast? = some closeBracket
    · rw [if_pos hclose] at hresult
      exact .inr (.inr (hright (ok_of_trimBracket hresult)))
    · exact .inr (.inl ⟨hport ▸ rfl, hopen, hclose⟩)
  · rw [if_neg hopen] at hresult
    exact .inr (.inr (hright (ok_of_trimBracket hresult)))

end Splitting

/-! ### Socket addresses come back -/

/-- What `inet_ntop` and `inet_pton` **promise for one address**: its text is read back, is not
empty and has no NUL, no brackets, and colons exactly in the case of IPv6. -/
structure Inet.Inverts (inet : Inet) (f : Family) (a : List UInt8) : Prop where
  pton_ntop : inet.pton f (inet.ntop f a) = some a
  isHost : IsHost (inet.ntop f a)
  colon_mem : colon ∈ inet.ntop f a ↔ f = .inet6
  nul : (0 : UInt8) ∉ inet.ntop f a

/-- The text of a socket address, split and parsed, **gives back its address and its port**. -/
def ComesBack (inet : Inet) (f : Family) (ss : SockAddr) : Prop :=
  ∀ host₀ port₀, ∃ host port ss',
    splitHostPort (toIPPort inet ss) host₀ port₀ = some (true, host, port) ∧
    parseFromIPPort inet host port = (true, ss', some (decide (f = .inet6))) ∧
    family ss' = family ss ∧ addressOf f ss' = addressOf f ss ∧ portOf ss' = portOf ss

section ComingBack

variable {inet : Inet} {f : Family} {a : List UInt8} {ss : SockAddr} {host : Text} {port : ℤ}

/-- A host that `inet_pton` takes gives the address of its family. -/
theorem parseFromIPPort_of_pton (hf : familyOf host = f) (h : inet.pton f (cstr host) = some a)
    (port : ℤ) : parseFromIPPort inet host port =
      (true, ⟨sockAddrBytes f port a, length_sockAddrBytes (inet.length_pton h) port⟩,
        some (decide (f = .inet6))) := by
  subst hf
  rw [parseFromIPPort]
  split
  · next heq =>
      rw [h] at heq
      cases heq
  · next b heq =>
      obtain rfl : b = a := Option.some.inj (heq.symm.trans h)
      rfl

/-- The family is read back. -/
theorem family_sockAddrBytes (hlen : (sockAddrBytes f port a).length = 128) :
    family ⟨sockAddrBytes f port a, hlen⟩ = f.number := by
  cases f with
  | inet => rfl
  | inet6 => rfl

/-- The port is read back modulo 2^16. -/
theorem portOf_sockAddrBytes (hlen : (sockAddrBytes f port a).length = 128) :
    portOf ⟨sockAddrBytes f port a, hlen⟩ = (port % 2 ^ 16).toNat := by
  have hspan : span (sockAddrBytes f port a) 2 2 = beBytes 2 (port % 2 ^ 16).toNat := by
    rw [span, sockAddrBytes, List.drop_left' (by simp [hostBytes]),
      List.take_left' (length_beBytes 2 _)]
  rw [portOf, hspan, beVal_beBytes]
  omega

/-- The address is read back. -/
theorem addressOf_sockAddrBytes (h : a.length = f.size)
    (hlen : (sockAddrBytes f port a).length = 128) :
    addressOf f ⟨sockAddrBytes f port a, hlen⟩ = a := by
  have hfront : (hostBytes 2 f.number ++ (beBytes 2 (port % 2 ^ 16).toNat ++
      List.replicate (f.offset - 4) 0)).length = f.offset := by
    cases f with
    | inet => simp [hostBytes, Family.offset]
    | inet6 => simp [hostBytes, Family.offset]
  change ((sockAddrBytes f port a).drop f.offset).take f.size = a
  rw [sockAddrBytes, ← List.append_assoc _ _ (a ++ _), ← List.append_assoc,
    List.drop_left' hfront, List.take_left' h]

/-- The port of an address is printed as a port. -/
theorem isPort_decimal (ss : SockAddr) : IsPort (decimal (portOf ss)) (portOf ss) := by
  refine ⟨decimal_ne_nil _, fun c hc => ?_, decimalVal_decimal _, ?_⟩
  · obtain ⟨hlow, hhigh⟩ := digit_of_mem_decimal hc
    rw [isdigit, decide_eq_true hlow, decide_eq_true hhigh]
    rfl
  · have hlt := beVal_lt (span ss.bytes 2 2)
    rw [length_span (by rw [ss.size]; decide)] at hlt
    rw [portOf]
    omega

/-- The text of a socket address is of the form. -/
theorem isFront_toIPPort (hf : family ss = f.number) (ha : inet.Inverts f (addressOf f ss)) :
    ∃ front, IsFront front (inet.ntop f (addressOf f ss)) ∧
      toIPPort inet ss = front ++ colon :: decimal (portOf ss) := by
  cases f with
  | inet =>
      have hcolon : colon ∉ inet.ntop .inet (addressOf .inet ss) := fun hmem =>
        absurd (ha.colon_mem.mp hmem) (by decide)
      refine ⟨_, ⟨ha.isHost, .inl ⟨rfl, hcolon⟩⟩, ?_⟩
      rw [toIPPort, if_pos hf, if_neg ha.isHost.1]
  | inet6 =>
      have hne : family ss ≠ Family.inet.number := by
        rw [hf]
        decide
      refine ⟨_, ⟨ha.isHost, .inr (.inl rfl)⟩, ?_⟩
      rw [toIPPort, if_neg hne, if_pos hf]
      exact if_neg (List.cons_ne_nil _ _)

/-- The text of an address is parsed as **an address of its family, with its bytes**. -/
theorem Inet.Inverts.parse (ha : inet.Inverts f a) (port : ℤ) : ∃ ss',
    parseFromIPPort inet (inet.ntop f a) port = (true, ss', some (decide (f = .inet6))) ∧
    family ss' = f.number ∧ addressOf f ss' = a ∧ portOf ss' = (port % 2 ^ 16).toNat := by
  have hfamily : familyOf (inet.ntop f a) = f := by
    rw [familyOf]
    cases f with
    | inet => exact if_neg fun hmem => absurd (ha.colon_mem.mp hmem) (by decide)
    | inet6 => exact if_pos (ha.colon_mem.mpr rfl)
  have hpton : inet.pton f (cstr (inet.ntop f a)) = some a := by
    rw [cstr_eq_self ha.nul]
    exact ha.pton_ntop
  exact ⟨_, parseFromIPPort_of_pton hfamily hpton port, family_sockAddrBytes _,
    addressOf_sockAddrBytes (inet.length_pton hpton) _, portOf_sockAddrBytes _⟩

/-- **Every socket address comes back** from its text. -/
theorem comesBack (hf : family ss = f.number) (ha : inet.Inverts f (addressOf f ss)) :
    ComesBack inet f ss := by
  intro host₀ port₀
  obtain ⟨front, hfront, htext⟩ := isFront_toIPPort hf ha
  have hp := isPort_decimal ss
  have hcolon : colon ∉ decimal (portOf ss) := not_mem_of_isPort hp rfl
  obtain ⟨ss', hparse, hfamily, haddress, hport⟩ := ha.parse (portOf ss)
  refine ⟨_, portOf ss, ss', ?_, hparse, hfamily.trans hf.symm, haddress, ?_⟩
  · rw [htext]
    exact splitHostPort_of_isFront (splitLast_append hcolon) hp hfront host₀ port₀
  · have hle := hp.2.2.2
    omega

end ComingBack

/-- **Splitting is right exactly for the splittable texts**; the texts of socket addresses are, and
come back. -/
theorem splitHostPort_iff (a : Text) : (SplitsRight a ↔ Splittable a) ∧
    ∀ (inet : Inet) (f : Family) (ss : SockAddr), family ss = f.number →
      inet.Inverts f (addressOf f ss) → ComesBack inet f ss :=
  ⟨⟨splittable_of_splitsRight, splitsRight_of_splittable⟩, fun _ _ _ => comesBack⟩

/-- The loopback addresses, in the texts that `inet_ntop` gives them. -/
def loopbacks : Inet where
  ntop
    | .inet, _ => ascii "127.0.0.1"
    | .inet6, _ => ascii "::1"
  pton
    | .inet, t => if t = ascii "127.0.0.1" then some [127, 0, 0, 1] else none
    | .inet6, t => if t = ascii "::1" then some (List.replicate 15 0 ++ [1]) else none
  length_pton {f t a} h := by
    cases f with
    | inet =>
        obtain rfl := Option.some.inj (Option.ite_none_right_eq_some.mp h).2
        rfl
    | inet6 =>
        obtain rfl := Option.some.inj (Option.ite_none_right_eq_some.mp h).2
        rfl

/-- `[::1]:8000` as a socket address. -/
def loopback6 : SockAddr :=
  ⟨sockAddrBytes .inet6 8000 (List.replicate 15 0 ++ [1]), length_sockAddrBytes rfl _⟩

/-- The loopback address of IPv6 comes back. -/
theorem loopback_comesBack : ComesBack loopbacks .inet6 loopback6 :=
  (splitHostPort_iff (ascii "[::1]:8000")).2 loopbacks .inet6 loopback6 rfl
    ⟨rfl, ⟨by decide, by decide, by decide⟩, by decide, by decide⟩

/-- A port without digits and an address without a port are accepted. -/
theorem letters_accepted : splitHostPort (ascii "host:port") [] 0 = some (true, ascii "host", 0) ∧
    splitHostPort (ascii "::1") [] 0 = some (true, ascii ":", 1) ∧
    ¬ SplitsRight (ascii "host:port") ∧ ¬ SplitsRight (ascii "::1") := by
  have hletters : ¬ Splittable (ascii "host:port") := by
    intro h
    rcases h (ascii "host") (ascii "port") rfl with hnil | ⟨-, hopen, -⟩ | ⟨⟨n, hp⟩, -⟩
    · cases hnil
    · exact absurd hopen (by decide)
    · exact absurd (hp.2.1 112 (by decide)) (by decide)
  have hbare : ¬ Splittable (ascii "::1") := by
    intro h
    rcases h (ascii ":") (ascii "1") rfl with hnil | ⟨-, hopen, -⟩ | ⟨-, h, hh, hfront⟩
    · cases hnil
    · exact absurd hopen (by decide)
    · rcases hfront with ⟨rfl, hcolon⟩ | hfront | hfront
      · exact hcolon (by decide)
      · have hhead : ascii ":" ≠ openBracket :: (h ++ [closeBracket]) := fun heq =>
          absurd (List.cons.inj heq).1 (by decide)
        exact hhead hfront
      · have hlast := congrArg List.getLast? hfront
        rw [List.getLast?_concat] at hlast
        exact absurd hlast (by decide)
  exact ⟨rfl, rfl, fun h => hletters (splittable_of_splitsRight h),
    fun h => hbare (splittable_of_splitsRight h)⟩

end ArchNet.Net
