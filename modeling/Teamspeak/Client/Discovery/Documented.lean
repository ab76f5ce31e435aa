import Teamspeak.Client.Discovery.Resolver

/-!
# The order addresses are looked for in

What `resolve` is documented to give, said of a network whose services answer each question in one
way: a nickname's address where that is asked for; then the first that knows anything of the host's
SRV records, the TSDNS servers its domains name, the TSDNS servers on its domains, and the address
as given.

* `Network.documented`: that.
* `Next.Follows`: what is left to be asked decides, as far as it was asked.
* `askServers_follows`: the loops ask in the documented order.
-/

namespace Teamspeak.Client

/-! ### The first that knows anything -/

section

variable {α : Type*}

/-- The first of the lists that has anything. -/
def firstNonempty (l : List (List α)) : List α := (l.find? fun a => 0 < a.length).getD []

theorem firstNonempty_nil_cons (l : List (List α)) : firstNonempty ([] :: l) = firstNonempty l := by
  rw [firstNonempty, List.find?_cons_of_neg (by simp)]
  rfl

theorem firstNonempty_cons {a : List α} (ha : a ≠ []) (l : List (List α)) :
    firstNonempty (a :: l) = a := by
  have hlong : 0 < a.length := List.length_pos_iff.mpr ha
  simp [firstNonempty, hlong]

theorem firstNonempty_append_of_find? {l : List (List α)} {a : List α}
    (h : (l.find? fun a => 0 < a.length) = some a) (l' : List (List α)) :
    firstNonempty (l ++ l') = a := by
  rw [firstNonempty, List.find?_append, h]
  rfl

theorem firstNonempty_append_of_none {l : List (List α)}
    (h : (l.find? fun a => 0 < a.length) = none) (l' : List (List α)) :
    firstNonempty (l ++ l') = firstNonempty l' := by
  rw [firstNonempty, List.find?_append, h]
  rfl

end

/-! ### A network that answers -/

structure Network where
  nickname : Str → Option Str
  srv : Str → SrvAnswer
  tsdns : Str → Str → Outcome

namespace Network

def Says (net : Network) : Heard → Prop
  | .nickname name answer => net.nickname name = answer
  | .srv name answer => net.srv name = answer
  | .tsdns server host outcome => net.tsdns server host = outcome

/-- A resolution heard nothing else from this network. -/
def Agrees (net : Network) (heard : List Heard) : Prop := ∀ h ∈ heard, net.Says h

theorem Agrees.mono {net : Network} {heard heard' : List Heard} (h : net.Agrees heard')
    (hsub : heard ⊆ heard') : net.Agrees heard := fun a ha => h a (hsub ha)

variable (isIP : Str → Nat)

section

variable (net : Network) (host port : Str)

def askServer (server : Str) : List Str := askTSDNS isIP port (net.tsdns server host)

/-- What the servers say that a domain's SRV records name. -/
def bySrv (domain : Str) : List Found :=
  ((srvTargets isIP (net.srv (tsdnsName domain))).getD []).map fun server =>
    foundBy .tsdnsSrv (net.askServer isIP host port server)

/-- What the servers on the domains say, and the address as given. -/
def atLast : List Found :=
  ((getDomainList host).map fun domain =>
    foundBy .tsdnsDirect (net.askServer isIP host port (joinHostPort isIP domain tsdnsDefaultPort)))
    ++ [given isIP host port]

/-- What there may be, the best first. -/
def preferences : List Found :=
  foundBy .srv ((srvTargets isIP (net.srv (ts3Name host))).getD []) ::
    ((getDomainList host).flatMap (net.bySrv isIP host port) ++ net.atLast isIP host port)

/-- What a resolution that waits has not asked for yet, or has no answer of. -/
def remaining : Wait → List Found
  | .nickname => []
  | .srv => net.preferences isIP host port
  | .tsdnsSrv domain domains =>
    (domain :: domains).flatMap (net.bySrv isIP host port) ++ net.atLast isIP host port
  | .tsdns lookup servers domains =>
    ((lookup.server :: servers).map fun server =>
        foundBy .tsdnsSrv (net.askServer isIP host port server)) ++
      (domains.flatMap (net.bySrv isIP host port) ++ net.atLast isIP host port)
  | .direct _ => net.atLast isIP host port

end

/-- Of an address that is no nickname. -/
def documented (net : Network) (address : Str) : Found :=
  let { host, port } := splitHostPort isIP address
  if isIpAddress isIP host then given isIP host port
  else firstNonempty (net.preferences isIP host port)

/-- The address a resolution is about, which is another where it is a nickname. -/
def nicknamed (nicknameLookup : Bool) (net : Network) (inputAddr : Str) : Str :=
  let host := (splitHostPort isIP inputAddr).host
  if isIpAddress isIP host = false ∧ asksNickname nicknameLookup host then
    (net.nickname host).getD inputAddr
  else inputAddr

end Network

/-! ### What is left decides -/

section

variable (isIP : Str → Nat)

/-- The lookups a resolution waits for are those it made, and it knows what those say that have
ended. -/
def Wait.Sound (host : Str) (heard : List Heard) : Wait → Prop
  | .tsdns lookup _ _ => lookup.host = host ∧ lookup.outcome = none
  | .direct lookups =>
    (lookups.map fun lookup => (lookup.server, lookup.host)) =
        ((getDomainList host).map fun domain =>
          (joinHostPort isIP domain tsdnsDefaultPort, host)) ∧
      ∀ lookup ∈ lookups, lookup.told ⊆ heard
  | _ => True

/-- **What is left to be asked decides**, of a resolution that has heard so much. -/
def Next.Follows (signal : Option AbortReason) (host port : Str)
    (preferences : Network → List Found) (heard : List Heard) : Next → Prop
  | .waits wait =>
    wait ≠ .nickname ∧ wait.Sound isIP host heard ∧ ∀ net : Network, net.Agrees heard →
      firstNonempty (preferences net) = firstNonempty (net.remaining isIP host port wait)
  | .answers _ => False
  | .found addrs =>
    addrs ≠ [] ∧ ∀ net : Network, net.Agrees heard → firstNonempty (preferences net) = addrs
  | .throws => signal.isSome = true

variable {isIP}

section

variable {signal : Option AbortReason} {host port : Str} {preferences : Network → List Found}
  {heard : List Heard}

theorem Wait.Sound.mono {heard' : List Heard} {wait : Wait} (h : wait.Sound isIP host heard)
    (hsub : heard ⊆ heard') : wait.Sound isIP host heard' := by
  cases wait with
  | direct lookups => exact ⟨h.1, fun lookup hmem => List.Subset.trans (h.2 lookup hmem) hsub⟩
  | _ => exact h

/-- To have heard more, and to know that it left something out. -/
theorem Next.Follows.weaken {preferences' : Network → List Found} {heard' : List Heard}
    {next : Next} (h : next.Follows isIP signal host port preferences heard)
    (hsub : heard ⊆ heard')
    (heq : ∀ net : Network, net.Agrees heard' →
      firstNonempty (preferences' net) = firstNonempty (preferences net)) :
    next.Follows isIP signal host port preferences' heard' := by
  cases next with
  | waits wait =>
    obtain ⟨hne, hsound, hrest⟩ := h
    exact ⟨hne, hsound.mono hsub, fun net hnet => (heq net hnet).trans (hrest net (hnet.mono hsub))⟩
  | answers addrs => exact h
  | found addrs => exact ⟨h.1, fun net hnet => (heq net hnet).trans (h.2 net (hnet.mono hsub))⟩
  | throws => exact h

theorem mem_told {lookup : Lookup} {outcome : Outcome} (h : lookup.outcome = some outcome) :
    .tsdns lookup.server lookup.host outcome ∈ lookup.told := by
  rw [Lookup.told, h]
  exact List.mem_singleton_self _

/-- The answers of the servers on the domains, once they are all there. -/
theorem directAnswered_follows {lookups : List Lookup}
    (hsound : (Wait.direct lookups).Sound isIP host heard) :
    (directAnswered isIP signal host port lookups).Follows isIP signal host port
      (fun net => net.atLast isIP host port) heard := by
  rw [directAnswered]
  split
  · rename_i hall
    rw [List.all_eq_true] at hall
    have hanswers : ∀ net : Network, net.Agrees heard →
        (lookups.map fun lookup => (lookup.outcome.map (askTSDNS isIP port)).getD []) =
          (getDomainList host).map fun domain =>
            net.askServer isIP host port (joinHostPort isIP domain tsdnsDefaultPort) := by
      intro net hnet
      have hask : ∀ lookup ∈ lookups, (lookup.outcome.map (askTSDNS isIP port)).getD [] =
          askTSDNS isIP port (net.tsdns lookup.server lookup.host) := by
        intro lookup hmem
        obtain ⟨outcome, houtcome⟩ := Option.isSome_iff_exists.mp (hall lookup hmem)
        have hsays : net.tsdns lookup.server lookup.host = outcome :=
          hnet _ (hsound.2 lookup hmem (mem_told houtcome))
        rw [houtcome, hsays]
        rfl
      have hpairs := congrArg (List.map fun p => askTSDNS isIP port (net.tsdns p.1 p.2)) hsound.1
      rw [List.map_map, List.map_map] at hpairs
      exact (List.map_congr_left hask).trans hpairs
    have hatLast : ∀ net : Network, net.Agrees heard → net.atLast isIP host port =
        (lookups.map fun lookup => (lookup.outcome.map (askTSDNS isIP port)).getD []).map
          (foundBy .tsdnsDirect) ++ [given isIP host port] := by
      intro net hnet
      rw [Network.atLast, hanswers net hnet, List.map_map]
      rfl
    dsimp only
    split
    · rename_i answer hfind
      have hlong := List.find?_some hfind
      have hne : answer ≠ [] := List.length_pos_iff.mp (by simpa using hlong)
      refine ⟨by simpa [foundBy] using hne, fun net hnet => ?_⟩
      dsimp only
      rw [hatLast net hnet]
      refine firstNonempty_append_of_find? ?_ _
      rw [List.find?_map]
      simp only [Function.comp_def, foundBy, List.length_map]
      rw [hfind]
      rfl
    · rename_i hfind
      split
      · rename_i hsignal
        exact hsignal
      · refine ⟨List.cons_ne_nil _ _, fun net hnet => ?_⟩
        dsimp only
        rw [hatLast net hnet, firstNonempty_append_of_none]
        · exact firstNonempty_cons (List.cons_ne_nil _ _) _
        · rw [List.find?_map]
          simp only [Function.comp_def, foundBy, List.length_map]
          rw [hfind]
          rfl
  · exact ⟨Wait.noConfusion, hsound, fun net _ => rfl⟩

theorem resolveTSDNSDirect_follows (before : List Heard) :
    (resolveTSDNSDirect isIP signal host port).next.Follows isIP signal host port
      (fun net => net.atLast isIP host port)
      (before ++ (resolveTSDNSDirect isIP signal host port).heard) := by
  refine directAnswered_follows ⟨?_, fun lookup hmem => ?_⟩
  · rw [directLookups, List.map_map]
    rfl
  · intro h hh
    exact List.mem_append_right _ (List.mem_flatMap.mpr ⟨lookup, hmem, hh⟩)

theorem resolveTSDNSSRV_follows (before : List Heard) (domains : List Str) :
    (resolveTSDNSSRV isIP none host port domains).next.Follows isIP none host port
      (fun net => domains.flatMap (net.bySrv isIP host port) ++ net.atLast isIP host port)
      (before ++ (resolveTSDNSSRV isIP none host port domains).heard) := by
  cases domains with
  | nil => exact resolveTSDNSDirect_follows before
  | cons domain domains => exact ⟨Wait.noConfusion, trivial, fun net _ => rfl⟩

theorem tsdnsAnswered_eq {lookup : Lookup} {outcome : Outcome} (h : lookup.outcome = some outcome)
    (rest : Turn) : tsdnsAnswered isIP port lookup rest =
      if 0 < (askTSDNS isIP port outcome).length then
        { next := .found (foundBy .tsdnsSrv (askTSDNS isIP port outcome)), heard := lookup.told }
      else { rest with heard := lookup.told ++ rest.heard } := by
  rw [tsdnsAnswered, h]
  rfl

/-- A server that has answered, before those that are asked if it has nothing to say. -/
theorem tsdnsAnswered_follows {lookup : Lookup} {outcome : Outcome} {rest : Turn}
    {before : List Heard} (hhost : lookup.host = host) (hended : lookup.outcome = some outcome)
    (hrest : rest.next.Follows isIP signal host port preferences (before ++ rest.heard)) :
    (tsdnsAnswered isIP port lookup rest).next.Follows isIP signal host port
      (fun net => foundBy .tsdnsSrv (net.askServer isIP host port lookup.server) ::
        preferences net)
      (before ++ (tsdnsAnswered isIP port lookup rest).heard) := by
  have htold : ∀ {net : Network} {heard : List Heard}, net.Agrees heard → lookup.told ⊆ heard →
      net.askServer isIP host port lookup.server = askTSDNS isIP port outcome := by
    intro net heard hnet hsub
    have hsays : net.tsdns lookup.server lookup.host = outcome := hnet _ (hsub (mem_told hended))
    rw [Network.askServer, ← hhost, hsays]
  rw [tsdnsAnswered_eq hended]
  by_cases hanswer : 0 < (askTSDNS isIP port outcome).length
  · rw [if_pos hanswer]
    have hne : foundBy .tsdnsSrv (askTSDNS isIP port outcome) ≠ [] := by
      simpa [foundBy] using List.length_pos_iff.mp hanswer
    refine ⟨hne, fun net hnet => ?_⟩
    dsimp only
    rw [htold hnet (List.subset_append_right _ _)]
    exact firstNonempty_cons hne _
  · rw [if_neg hanswer]
    refine hrest.weaken (fun h hh => ?_) fun net hnet => ?_
    · rcases List.mem_append.mp hh with hh | hh
      · exact List.mem_append_left _ hh
      · exact List.mem_append_right _ (List.mem_append_right _ hh)
    · have hnil : askTSDNS isIP port outcome = [] :=
        List.eq_nil_of_length_eq_zero (Nat.eq_zero_of_not_pos hanswer)
      rw [htold hnet fun h hh => List.mem_append_right _ (List.mem_append_left _ hh), hnil]
      exact firstNonempty_nil_cons _

theorem askServers_follows (before : List Heard) (domains servers : List Str) :
    (askServers isIP none host port domains servers).next.Follows isIP none host port
      (fun net => (servers.map fun server =>
          foundBy .tsdnsSrv (net.askServer isIP host port server)) ++
        (domains.flatMap (net.bySrv isIP host port) ++ net.atLast isIP host port))
      (before ++ (askServers isIP none host port domains servers).heard) := by
  induction servers with
  | nil => exact resolveTSDNSSRV_follows before domains
  | cons server servers ih =>
    rw [askServers]
    cases hended : (Lookup.start isIP none server host).outcome with
    | none => exact ⟨Wait.noConfusion, ⟨rfl, hended⟩, fun net _ => rfl⟩
    | some outcome => exact tsdnsAnswered_follows rfl hended ih

/-! ### A signal that has aborted -/

theorem start_outcome_of_aborted (reason : AbortReason) (server host : Str) :
    (Lookup.start isIP (some reason) server host).outcome = some (.error (.aborted reason)) := rfl

theorem resolveTSDNSDirect_aborted (reason : AbortReason) :
    (resolveTSDNSDirect isIP (some reason) host port).next = .throws := by
  have hall : (directLookups isIP (some reason) host).all
      (fun lookup => lookup.outcome.isSome) = true := by
    simp [directLookups, start_outcome_of_aborted]
  have hanswers : ((directLookups isIP (some reason) host).map
      fun lookup => (lookup.outcome.map (askTSDNS isIP port)).getD []).find?
        (fun answer => 0 < answer.length) = none := by
    simp [directLookups, start_outcome_of_aborted, askTSDNS]
  rw [resolveTSDNSDirect, directAnswered, if_pos hall]
  dsimp only
  rw [hanswers]
  rfl

theorem resolveTSDNSSRV_aborted (reason : AbortReason) (domains : List Str) :
    (resolveTSDNSSRV isIP (some reason) host port domains).next = .throws := by
  induction domains with
  | nil => exact resolveTSDNSDirect_aborted reason
  | cons domain domains ih => exact ih

theorem askServers_aborted (reason : AbortReason) (domains servers : List Str) :
    (askServers isIP (some reason) host port domains servers).next = .throws := by
  induction servers with
  | nil => exact resolveTSDNSSRV_aborted reason domains
  | cons server servers ih => exact ih

end

end

end Teamspeak.Client
