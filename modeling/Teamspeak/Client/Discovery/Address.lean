import Mathlib.Data.List.DropRight
import Mathlib.Data.List.TakeWhile
import Teamspeak.Client.Crypto.Identity
import Teamspeak.Stream.Wire

/-!
# Addresses

`address.ts`: an address is split into a host and a port, checked, and written again.  `isIP` is
node's: 6 of an IPv6 literal.

* `Connectable`: what is true of a host and a port that can be connected to.
* `splitHostPort_joinHostPort`: what was joined is split again.
* `parseConnectAddress_roundTrip`: an address that is accepted reads the same once it is joined.
-/

namespace Teamspeak.Client

structure HostPort where
  host : Str
  port : Str
  deriving DecidableEq

structure ConnectAddress extends HostPort where
  portNumber : Nat
  deriving DecidableEq

structure InvalidAddressError where
  address : Str
  reason : Str
  deriving DecidableEq

def openBracket : UInt16 := unit '['
def closeBracket : UInt16 := unit ']'

/-- `s.trim()`. -/
def trim (s : Str) : Str := (s.dropWhile isWhiteSpace).rdropWhile isWhiteSpace

/-- `/^\d+$/`. -/
def allDigits (s : Str) : Bool := s ≠ [] ∧ s.all Str.isDigit

/-- `Number(s)`, for the digits that a port is. -/
def numberOfDigits (s : Str) : Option Nat := if allDigits s then some (Str.digitsValue s) else none

/-- `\p{Cc}`. -/
def isControl (c : UInt16) : Bool := c ≤ 0x1F ∨ (0x7F ≤ c ∧ c ≤ 0x9F)

/-- `NOT_IN_A_HOST`. -/
def notInAHost (c : UInt16) : Bool :=
  isWhiteSpace c ∨ isControl c ∨
    c ∈ [unit '/', unit '?', unit '#', unit '@', openBracket, closeBracket, backslash]

/-- What an address in brackets is split into, if it is one. -/
def splitBracketed (input defaultPort : Str) : Option HostPort :=
  if input.head? = some openBracket then
    (input.idxOf? closeBracket).bind fun closingBracket =>
      let host := (input.take closingBracket).drop 1
      let suffix := input.drop (closingBracket + 1)
      if suffix.head? = some colon ∧ allDigits suffix.tail then some ⟨host, suffix.tail⟩
      else if suffix = [] then some ⟨host, defaultPort⟩
      else none
  else none

variable (isIP : Str → Nat)

def splitHostPort (address : Str) (defaultPort : Str := .of "9987") : HostPort :=
  let input := trim address
  match splitBracketed input defaultPort with
  | some split => split
  | none =>
    if isIP input = 6 then ⟨input, defaultPort⟩
    else
      match lastIndexOf input colon with
      | none => ⟨input, defaultPort⟩
      | some lastColon =>
        let candidatePort := input.drop (lastColon + 1)
        if allDigits candidatePort ∧ input.idxOf? colon = some lastColon then
          ⟨input.take lastColon, candidatePort⟩
        else ⟨input, defaultPort⟩

def parseConnectAddress (address : Str) : Except InvalidAddressError ConnectAddress :=
  let split := splitHostPort isIP address
  if split.host = [] then .error ⟨address, .of "no host"⟩
  else if split.host.any notInAHost ∨ (colon ∈ split.host ∧ isIP split.host ≠ 6) then
    .error ⟨address, .of "not a host name, IP address or host:port"⟩
  else
    let outOfRange := .error ⟨address, .of "port " ++ split.port ++ .of " is not from 1 to 65535"⟩
    match numberOfDigits split.port with
    | none => outOfRange
    | some portNumber =>
      if portNumber < 1 ∨ portNumber > 65535 then outOfRange
      else .ok { split with portNumber }

def stripBrackets (host : Str) : Str :=
  if host.head? = some openBracket ∧ host.getLast? = some closeBracket then
    (host.take (host.length - 1)).drop 1
  else host

def joinHostPort (host port : Str) : Str :=
  let normalizedHost := stripBrackets host
  if isIP normalizedHost = 6 ∨ colon ∈ normalizedHost then
    openBracket :: normalizedHost ++ closeBracket :: colon :: port
  else normalizedHost ++ colon :: port

/-- **A host and a port to connect to**: nothing a host cannot contain, a colon in an IPv6 literal
only, and a port of digits. -/
structure Connectable (a : ConnectAddress) : Prop where
  nonempty : a.host ≠ []
  clean : ∀ c ∈ a.host, notInAHost c = false
  ipv6 : colon ∈ a.host → isIP a.host = 6
  digits : numberOfDigits a.port = some a.portNumber
  range : 1 ≤ a.portNumber ∧ a.portNumber ≤ 65535

variable {isIP}

/-! ### Accepted addresses -/

/-- What is accepted can be connected to. -/
theorem connectable_of_parse {address : Str} {a : ConnectAddress}
    (h : parseConnectAddress isIP address = .ok a) : Connectable isIP a := by
  rw [parseConnectAddress] at h
  by_cases hhost : (splitHostPort isIP address).host = []
  · rw [if_pos hhost] at h
    cases h
  by_cases hbad : (splitHostPort isIP address).host.any notInAHost ∨
      (colon ∈ (splitHostPort isIP address).host ∧ isIP (splitHostPort isIP address).host ≠ 6)
  · rw [if_neg hhost, if_pos hbad] at h
    cases h
  rw [if_neg hhost, if_neg hbad] at h
  rw [not_or, not_and, not_not] at hbad
  cases hnumber : numberOfDigits (splitHostPort isIP address).port with
  | none =>
    simp only [hnumber] at h
    cases h
  | some n =>
    simp only [hnumber] at h
    by_cases hrange : n < 1 ∨ n > 65535
    · rw [if_pos hrange] at h
      cases h
    · rw [if_neg hrange] at h
      cases h
      refine ⟨hhost, fun c hc => ?_, hbad.2, hnumber, (by omega : 1 ≤ n ∧ n ≤ 65535)⟩
      have hany := Bool.eq_false_iff.mpr hbad.1
      exact Bool.eq_false_iff.mpr (List.any_eq_false.mp hany c hc)

/-- What can be connected to is accepted. -/
theorem parse_of_connectable {address : Str} {a : ConnectAddress} (h : Connectable isIP a)
    (hsplit : splitHostPort isIP address = a.toHostPort) :
    parseConnectAddress isIP address = .ok a := by
  have hclean : a.host.any notInAHost = false :=
    List.any_eq_false.mpr fun c hc => Bool.eq_false_iff.mp (h.clean c hc)
  have hbad : ¬(a.host.any notInAHost = true ∨ (colon ∈ a.host ∧ isIP a.host ≠ 6)) := by
    rintro (hany | ⟨hcolon, hip⟩)
    · exact Bool.eq_false_iff.mp hclean hany
    · exact hip (h.ipv6 hcolon)
  have hrange := h.range
  rw [parseConnectAddress, hsplit, if_neg h.nonempty, if_neg hbad]
  simp only [h.digits]
  rw [if_neg (by omega)]

/-! ### Joining -/

theorem trim_eq_self {s : Str} (hhead : ∀ c, s.head? = some c → isWhiteSpace c = false)
    (hlast : ∀ c, s.getLast? = some c → isWhiteSpace c = false) : trim s = s := by
  have hdrop : s.dropWhile isWhiteSpace = s := by
    cases s with
    | nil => rfl
    | cons c s => rw [List.dropWhile_cons, if_neg (by rw [hhead c rfl]; exact Bool.false_ne_true)]
  rw [trim, hdrop, List.rdropWhile_eq_self_iff]
  intro hs
  rw [hlast _ (List.getLast?_eq_some_getLast hs)]
  exact Bool.false_ne_true

theorem isWhiteSpace_of_isDigit {c : UInt16} (h : Str.isDigit c = true) :
    isWhiteSpace c = false := by
  rw [Str.isDigit, decide_eq_true_eq] at h
  rw [isWhiteSpace, decide_eq_false_iff_not]
  simp only [List.mem_cons, List.not_mem_nil, or_false, ← UInt16.toNat_inj,
    UInt16.le_iff_toNat_le, UInt16.toNat_ofNat]
  omega

namespace Connectable

variable {a : ConnectAddress} (h : Connectable isIP a)

include h

theorem not_mem {c : UInt16} (hc : notInAHost c = true) : c ∉ a.host := fun hmem =>
  absurd hc (Bool.eq_false_iff.mp (h.clean c hmem))

theorem allDigits_port : allDigits a.port = true := by
  have := h.digits
  rw [numberOfDigits] at this
  by_contra hno
  rw [if_neg hno] at this
  exact (Option.some_ne_none _).symm this

theorem stripBrackets_host : stripBrackets a.host = a.host := by
  rw [stripBrackets, if_neg]
  rintro ⟨hopen, -⟩
  exact h.not_mem (c := openBracket) (by decide) (List.mem_of_mem_head? hopen)

theorem port_last {c : UInt16} (front : Str)
    (hc : (front ++ a.port).getLast? = some c) : isWhiteSpace c = false := by
  have hdigits := h.allDigits_port
  rw [allDigits, decide_eq_true_eq] at hdigits
  rw [List.getLast?_append_of_ne_nil _ hdigits.1] at hc
  exact isWhiteSpace_of_isDigit (List.all_eq_true.mp hdigits.2 c (List.mem_of_mem_getLast? hc))

/-- A host that is an IPv6 literal stands in brackets. -/
theorem split_brackets :
    splitHostPort isIP (openBracket :: a.host ++ closeBracket :: colon :: a.port) =
      a.toHostPort := by
  have htrim : trim (openBracket :: a.host ++ closeBracket :: colon :: a.port) =
      openBracket :: a.host ++ closeBracket :: colon :: a.port := by
    refine trim_eq_self (fun c hc => ?_) fun c hc => ?_
    · obtain rfl := Option.some.inj hc
      decide
    · exact h.port_last (openBracket :: a.host ++ [closeBracket, colon]) (by simpa using hc)
  have hnot : closeBracket ∉ openBracket :: a.host := by
    intro hmem
    rcases List.mem_cons.mp hmem with he | hmem
    · exact absurd he (by decide)
    · exact h.not_mem (c := closeBracket) (by decide) hmem
  have hclose : (openBracket :: a.host ++ closeBracket :: colon :: a.port).idxOf? closeBracket =
      some (a.host.length + 1) := idxOf?_append_cons hnot _
  have hbracketed : splitBracketed (openBracket :: a.host ++ closeBracket :: colon :: a.port)
      (.of "9987") = some a.toHostPort := by
    rw [splitBracketed, hclose, Option.bind_some]
    simp [h.allDigits_port]
  rw [splitHostPort, htrim, hbracketed]

/-- A host without a colon stands before the only one. -/
theorem split_plain (hcolons : ∀ s, isIP s = 6 → 2 ≤ s.count colon) (hcolon : colon ∉ a.host) :
    splitHostPort isIP (a.host ++ colon :: a.port) = a.toHostPort := by
  obtain ⟨c, host, hhost⟩ := List.exists_cons_of_ne_nil h.nonempty
  have hport : colon ∉ a.port := by
    have hdigits := h.allDigits_port
    rw [allDigits, decide_eq_true_eq] at hdigits
    exact fun hmem => absurd (List.all_eq_true.mp hdigits.2 colon hmem) (by decide)
  have hfirst : notInAHost c = false := h.clean c (hhost ▸ List.mem_cons_self)
  have htrim : trim (a.host ++ colon :: a.port) = a.host ++ colon :: a.port := by
    refine trim_eq_self (fun d hd => ?_) fun d hd => ?_
    · rw [hhost, List.cons_append, List.head?_cons, Option.some.injEq] at hd
      subst hd
      by_contra hws
      exact absurd hfirst (by simp [notInAHost, hws])
    · exact h.port_last (a.host ++ [colon]) (by simpa using hd)
  have hbracketed : splitBracketed (a.host ++ colon :: a.port) (.of "9987") = none := by
    rw [splitBracketed, if_neg]
    rw [hhost, List.cons_append, List.head?_cons, Option.some.injEq]
    rintro rfl
    exact absurd hfirst (by decide)
  have hip : ¬ isIP (a.host ++ colon :: a.port) = 6 := by
    intro hip
    have hcount := hcolons _ hip
    rw [List.count_append, List.count_cons_self, List.count_eq_zero.mpr hcolon,
      List.count_eq_zero.mpr hport] at hcount
    omega
  rw [splitHostPort, htrim, hbracketed]
  simp only
  rw [if_neg hip, lastIndexOf_append a.host hport, idxOf?_append_cons hcolon]
  simp [h.allDigits_port]

end Connectable

/-- What was joined is split again. -/
theorem splitHostPort_joinHostPort (hcolons : ∀ s, isIP s = 6 → 2 ≤ s.count colon)
    {a : ConnectAddress} (h : Connectable isIP a) :
    splitHostPort isIP (joinHostPort isIP a.host a.port) = a.toHostPort := by
  rw [joinHostPort, h.stripBrackets_host]
  by_cases hliteral : isIP a.host = 6 ∨ colon ∈ a.host
  · rw [if_pos hliteral]
    exact h.split_brackets
  · rw [if_neg hliteral]
    exact h.split_plain hcolons fun hc => hliteral (Or.inr hc)

/-- **An address that is accepted**, joined from its host and port, is split into them again and
accepted as the same, if what `isIP` takes for an IPv6 literal has two colons at least. -/
theorem parseConnectAddress_roundTrip (isIP : Str → Nat)
    (hcolons : ∀ s, isIP s = 6 → 2 ≤ s.count colon) {address : Str} {a : ConnectAddress}
    (h : parseConnectAddress isIP address = .ok a) :
    splitHostPort isIP (joinHostPort isIP a.host a.port) = a.toHostPort ∧
      parseConnectAddress isIP (joinHostPort isIP a.host a.port) = .ok a :=
  have ha := connectable_of_parse h
  have hsplit := splitHostPort_joinHostPort hcolons ha
  ⟨hsplit, parse_of_connectable ha hsplit⟩

/-- Of a literal with its zone, in brackets and with a port. -/
theorem parseConnectAddress_roundTrip_zone :
    let host : Str := .of "fe80::1%eth0"
    let isIP : Str → Nat := fun s => if s = host then 6 else 0
    splitHostPort isIP (joinHostPort isIP host (.of "09988")) = ⟨host, .of "09988"⟩ ∧
      parseConnectAddress isIP (joinHostPort isIP host (.of "09988")) =
        .ok ⟨⟨host, .of "09988"⟩, 9988⟩ :=
  @parseConnectAddress_roundTrip _
    (fun s hs => by
      by_cases h : s = .of "fe80::1%eth0"
      · rw [h]
        decide
      · rw [if_neg h] at hs
        exact absurd hs (by decide))
    (.of " [fe80::1%eth0]:09988") ⟨⟨.of "fe80::1%eth0", .of "09988"⟩, 9988⟩ (by decide)

end Teamspeak.Client
