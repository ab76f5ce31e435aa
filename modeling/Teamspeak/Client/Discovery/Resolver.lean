import Teamspeak.Client.Discovery.Services
import Teamspeak.Client.Discovery.Srv

/-!
# The resolver

`Resolver` of `resolver.ts`: any number of resolutions going on at once, which share one cache.  A
step is an event of the loop and all that runs on it before the next; what a resolution asked and
what it was told is kept beside it.

* `Turn`: what a resolution does from one thing it waits for to the next.
* `Request.react`: what it does when something happens that it waits for; `Request.Reacts` says it
  case by case.
* `Resolver.step`: every event there is; `Resolver.Steps` says what becomes of each.
-/

namespace Teamspeak.Client

/-- `ResolveSource`. -/
inductive ResolveSource
  | srv
  | tsdnsSrv
  | tsdnsDirect
  | direct
  deriving DecidableEq

structure ResolvedAddr where
  addr : Str
  source : ResolveSource
  expiry : Option Nat := none
  deriving DecidableEq

structure SrvRecord extends SrvOrder where
  name : Str
  port : Nat
  deriving DecidableEq

/-- The records of an SRV lookup, and what `Math.random` gives while they are put in order; `none`
is a rejection. -/
abbrev SrvAnswer := Option (List SrvRecord × Random)

inductive Question
  | nickname (name : Str)
  | srv (name : Str)
  | tsdns (server host : Str)
  deriving DecidableEq

inductive Heard
  | nickname (name : Str) (answer : Option Str)
  | srv (name : Str) (answer : SrvAnswer)
  | tsdns (server host : Str) (answer : Outcome)

inductive ResolveError
  | invalid (error : InvalidAddressError)
  | aborted (reason : Nat)
  deriving DecidableEq

/-- Addresses and how they were found, before `#setCache` says how long they are good for. -/
abbrev Found := List (Str × ResolveSource)

def foundBy (source : ResolveSource) (addrs : List Str) : Found :=
  addrs.map fun addr => (addr, source)

/-- What a resolution waits for. -/
inductive Wait
  | nickname
  | srv
  /-- The domain asked about, and those after it. -/
  | tsdnsSrv (domain : Str) (domains : List Str)
  /-- The server asked, those its domain has after it, and the domains after that one. -/
  | tsdns (lookup : Lookup) (servers domains : List Str)
  | direct (lookups : List Lookup)

inductive Next
  | waits (wait : Wait)
  /-- Returned as it is. -/
  | answers (addrs : List ResolvedAddr)
  /-- Returned by way of `#setCache`. -/
  | found (addrs : Found)
  | throws

/-- What a resolution does until it waits again. -/
structure Turn where
  next : Next
  asked : List Question := []
  heard : List Heard := []
  /-- The SRV lookups whose promises nobody handles: `abortable` leaves its promise where the signal
  has aborted before. -/
  dropped : List Str := []

def dot : UInt16 := unit '.'

/-- `PORT_PLACEHOLDER`. -/
def portPlaceholder : Str := .of ":$PORT"

/-- `CACHE_TTL_MS`. -/
def cacheTtlMs : Nat := 10 * 60 * 1000

/-- A host's domains, from itself on: those of two labels at least, and no more than three. -/
def getDomainList (host : Str) : List Str :=
  let parts := host.splitOn dot
  let list := (List.range (parts.length - 1)).map fun i => [dot].intercalate (parts.drop i)
  list.take 3

/-- `name.replace(/\.$/, "")`. -/
def withoutTrailingDot (name : Str) : Str :=
  if name.getLast? = some dot then name.dropLast else name

def ts3Name (host : Str) : Str := .of "_ts3._udp." ++ host

def tsdnsName (domain : Str) : Str := .of "_tsdns._tcp." ++ domain

def Lookup.question (lookup : Lookup) : Question := .tsdns lookup.server lookup.host

/-- The question, if there was a call of `createConnection`. -/
def Lookup.dialled (lookup : Lookup) : List Question :=
  match lookup.state with
  | .settled _ => []
  | _ => [lookup.question]

def Lookup.told (lookup : Lookup) : List Heard :=
  match lookup.outcome with
  | none => []
  | some outcome => [.tsdns lookup.server lookup.host outcome]

section

variable (isIP : Str → Nat)

def isIpAddress (host : Str) : Bool := isIP (stripBrackets host) ≠ 0

def normalizeTSDNSEntries (entries : List Str) (port : Str) : List Str :=
  entries.map fun entry =>
    if portPlaceholder <:+ entry then
      let host := (splitHostPort isIP (entry.take (entry.length - portPlaceholder.length))).host
      joinHostPort isIP host port
    else
      let target := splitHostPort isIP entry
      joinHostPort isIP target.host target.port

/-- A server that fails to answer is one with no answer. -/
def askTSDNS (port : Str) : Outcome → List Str
  | .ok entries => normalizeTSDNSEntries isIP entries port
  | .error _ => []

/-- The addresses of an SRV answer, in the order they are tried; `none` where it has none, or the
ordering throws. -/
def srvTargets : SrvAnswer → Option (List Str)
  | none => none
  | some (srvs, random) =>
    if srvs = [] then none
    else
      (orderSrvRecords SrvRecord.toSrvOrder random srvs).map fun ordered =>
        ordered.map fun srv => joinHostPort isIP (withoutTrailingDot srv.name) (Str.ofNat srv.port)

section

-- of one resolution: its signal, and what it looks for
variable (signal : Option AbortReason) (host port : Str)

/-- The address as given. -/
def given : Found := [(joinHostPort isIP host port, .direct)]

/-- `Promise.all`, and what is done with the answers. -/
def directAnswered (lookups : List Lookup) : Next :=
  if lookups.all fun lookup => lookup.outcome.isSome then
    let answers := lookups.map fun lookup => (lookup.outcome.map (askTSDNS isIP port)).getD []
    match answers.find? fun answer => 0 < answer.length with
    | some answer => .found (foundBy .tsdnsDirect answer)
    | none => if signal.isSome then .throws else .found (given isIP host port)
  else .waits (.direct lookups)

def directLookups : List Lookup :=
  (getDomainList host).map fun domain =>
    Lookup.start isIP signal (joinHostPort isIP domain tsdnsDefaultPort) host

def resolveTSDNSDirect : Turn where
  next := directAnswered isIP signal host port (directLookups isIP signal host)
  asked := (directLookups isIP signal host).flatMap Lookup.dialled
  heard := (directLookups isIP signal host).flatMap Lookup.told

/-- An SRV lookup; `rest` is what is done if it gives nothing.  It is made whatever the signal says,
and not waited for if that has aborted. -/
def srv (name : Str) (wait : Wait) (rest : Turn) : Turn :=
  if signal.isSome then
    { rest with asked := .srv name :: rest.asked, dropped := name :: rest.dropped }
  else { next := .waits wait, asked := [.srv name] }

/-- The loop over the domains. -/
def resolveTSDNSSRV : List Str → Turn
  | [] => resolveTSDNSDirect isIP signal host port
  | domain :: domains =>
    srv signal (tsdnsName domain) (.tsdnsSrv domain domains) (resolveTSDNSSRV domains)

/-- A server has answered; `rest` is what is done if it has nothing to say. -/
def tsdnsAnswered (lookup : Lookup) (rest : Turn) : Turn :=
  let answer := (lookup.outcome.map (askTSDNS isIP port)).getD []
  if 0 < answer.length then
    { next := .found (foundBy .tsdnsSrv answer), heard := lookup.told }
  else { rest with heard := lookup.told ++ rest.heard }

/-- The loop over a domain's servers, before that over the domains left. -/
def askServers (domains : List Str) : List Str → Turn
  | [] => resolveTSDNSSRV isIP signal host port domains
  | server :: servers =>
    let lookup := Lookup.start isIP signal server host
    if lookup.outcome.isSome then
      let turn := tsdnsAnswered isIP port lookup (askServers domains servers)
      { turn with asked := lookup.dialled ++ turn.asked }
    else { next := .waits (.tsdns lookup servers domains), asked := lookup.dialled }

/-- `#resolve` from the SRV lookup on. -/
def resolveHost : Turn :=
  srv signal (ts3Name host) .srv (resolveTSDNSSRV isIP signal host port (getDomainList host))

/-- What the SRV lookup has told. -/
def srvAnswered (answer : SrvAnswer) : Turn :=
  match srvTargets isIP answer with
  | some targets => { next := .found (foundBy .srv targets) }
  | none => resolveTSDNSSRV isIP signal host port (getDomainList host)

end

/-- Whether the nickname service is asked, where `nicknames` says that it may be. -/
def asksNickname (nicknames : Bool) (host : Str) : Bool :=
  nicknames ∧ dot ∉ host ∧ host ≠ .of "localhost"

/-- `#resolve`; `cached` is what `#getValidCache` gives. -/
def resolveAddress (signal : Option AbortReason) (nicknames : Bool) (inputAddr : Str)
    (cached : Option (List ResolvedAddr)) : Turn :=
  match cached with
  | some cached => { next := .answers cached }
  | none =>
    let { host, port } := splitHostPort isIP inputAddr
    if isIpAddress isIP host then
      { next := .answers [{ addr := joinHostPort isIP host port, source := .direct }] }
    else if asksNickname nicknames host then
      { next := .waits .nickname, asked := [.nickname host] }
    else resolveHost isIP signal host port

end

/-- What a resolution knows, besides what it waits for. -/
structure Request where
  inputAddr : Str
  /-- What `#resolve` was called with last: the address, or what the nickname stands for. -/
  address : Str
  /-- The reason of the caller's signal, once it has aborted. -/
  caller : Option Nat := none
  /-- The reason of the signal made of that and the budget's. -/
  signal : Option AbortReason := none
  asked : List Question := []
  heard : List Heard := []
  dropped : List Str := []

inductive Phase
  | waits (wait : Wait)
  | settled (result : Except ResolveError (List ResolvedAddr))

structure Resolution extends Request where
  phase : Phase

/-- What a resolution may wait for. -/
inductive Reply
  | nickname (response : Option Response)
  | srv (answer : SrvAnswer)
  /-- Of one of the sockets that are open. -/
  | socket (index : Nat) (e : SocketEvent)
  | abort (cause : AbortReason)

namespace Request

/-- What it knows after a turn. -/
def turned (q : Request) (turn : Turn) : Request :=
  { q with
    asked := q.asked ++ turn.asked
    heard := q.heard ++ turn.heard
    dropped := q.dropped ++ turn.dropped }

variable (isIP : Str → Nat) (decode : Bytes → Str)

def target (q : Request) : HostPort := splitHostPort isIP q.address

def abort (q : Request) (cause : AbortReason) : Request :=
  { q with
    signal := q.signal.or (some cause)
    caller :=
      match cause with
      | .caller reason => q.caller.or (some reason)
      | .budget => q.caller }

/-- The nickname service has answered; `cache` is `#getValidCache`. -/
def nicknameAnswered (cache : Str → Option (List ResolvedAddr)) (q : Request)
    (response : Option Response) : Request × Turn :=
  let { host, port } := q.target isIP
  let answer := resolveNickname decode response
  let q := { q with heard := q.heard ++ [.nickname host answer] }
  if q.signal.isSome then (q, { next := .throws })
  else
    match answer with
    | some nickAddr =>
      ({ q with address := nickAddr },
        resolveAddress isIP q.signal false nickAddr (cache nickAddr))
    | none => (q, resolveHost isIP q.signal host port)

/-- What happens to one of the sockets. -/
def directEvent (q : Request) (lookups : List Lookup) (index : Nat) (e : SocketEvent) : Turn :=
  let { host, port } := q.target isIP
  let lookups' := lookups.modify index fun lookup => lookup.step decode e
  { next := directAnswered isIP q.signal host port lookups'
    heard :=
      if (lookups[index]?).any fun lookup => lookup.outcome.isNone then
        ((lookups'[index]?).map Lookup.told).getD []
      else [] }

/-- The signal aborts, as the sockets that are open hear it. -/
def directAborted (q : Request) (lookups : List Lookup) (cause : AbortReason) : Turn :=
  let { host, port } := q.target isIP
  let lookups' := lookups.map fun lookup => lookup.step decode (.abort cause)
  { next := directAnswered isIP q.signal host port lookups'
    heard := (lookups.filter fun lookup => lookup.outcome.isNone).flatMap fun lookup =>
      (lookup.step decode (.abort cause)).told }

/-- What a resolution does when what it waits for happens; `none` where it waits for something
else. -/
def react (cache : Str → Option (List ResolvedAddr)) (q : Request) (wait : Wait) (reply : Reply) :
    Option (Request × Turn) :=
  let { host, port } := q.target isIP
  match wait, reply with
  | .nickname, .nickname response => some (nicknameAnswered isIP decode cache q response)
  | .nickname, .abort cause => some (q.abort cause, { next := .waits .nickname })
  | .srv, .srv answer =>
    some ({ q with heard := q.heard ++ [.srv (ts3Name host) answer] },
      srvAnswered isIP q.signal host port answer)
  | .srv, .abort cause =>
    let q := q.abort cause
    some (q, resolveTSDNSSRV isIP q.signal host port (getDomainList host))
  | .tsdnsSrv domain domains, .srv answer =>
    some ({ q with heard := q.heard ++ [.srv (tsdnsName domain) answer] },
      askServers isIP q.signal host port domains ((srvTargets isIP answer).getD []))
  | .tsdnsSrv _ domains, .abort cause =>
    let q := q.abort cause
    some (q, resolveTSDNSSRV isIP q.signal host port domains)
  | .tsdns lookup servers domains, .socket _ e =>
    let lookup := lookup.step decode e
    if lookup.outcome.isSome then
      some (q, tsdnsAnswered isIP port lookup
        (askServers isIP q.signal host port domains servers))
    else some (q, { next := .waits (.tsdns lookup servers domains) })
  | .tsdns lookup servers domains, .abort cause =>
    let q := q.abort cause
    some (q, tsdnsAnswered isIP port (lookup.step decode (.abort cause))
      (askServers isIP q.signal host port domains servers))
  | .direct lookups, .socket index e => some (q, directEvent isIP decode q lookups index e)
  | .direct lookups, .abort cause =>
    let q := q.abort cause
    some (q, directAborted isIP decode q lookups cause)
  | _, _ => none

/-- What may happen that a resolution waits for, and what it does then. -/
inductive Reacts (cache : Str → Option (List ResolvedAddr)) (q : Request) :
    Wait → Reply → Request → Turn → Prop
  | nickname (response : Option Response) :
      Reacts cache q .nickname (.nickname response)
        (q.nicknameAnswered isIP decode cache response).1
        (q.nicknameAnswered isIP decode cache response).2
  | nicknameAborted (cause : AbortReason) :
      Reacts cache q .nickname (.abort cause) (q.abort cause) { next := .waits .nickname }
  | srv (answer : SrvAnswer) :
      Reacts cache q .srv (.srv answer)
        { q with heard := q.heard ++ [.srv (ts3Name (q.target isIP).host) answer] }
        (srvAnswered isIP q.signal (q.target isIP).host (q.target isIP).port answer)
  | srvAborted (cause : AbortReason) :
      Reacts cache q .srv (.abort cause) (q.abort cause)
        (resolveTSDNSSRV isIP (q.abort cause).signal (q.target isIP).host (q.target isIP).port
          (getDomainList (q.target isIP).host))
  | domain (domain : Str) (domains : List Str) (answer : SrvAnswer) :
      Reacts cache q (.tsdnsSrv domain domains) (.srv answer)
        { q with heard := q.heard ++ [.srv (tsdnsName domain) answer] }
        (askServers isIP q.signal (q.target isIP).host (q.target isIP).port domains
          ((srvTargets isIP answer).getD []))
  | domainAborted (domain : Str) (domains : List Str) (cause : AbortReason) :
      Reacts cache q (.tsdnsSrv domain domains) (.abort cause) (q.abort cause)
        (resolveTSDNSSRV isIP (q.abort cause).signal (q.target isIP).host (q.target isIP).port
          domains)
  | server {lookup : Lookup} (servers domains : List Str) (index : Nat) {e : SocketEvent}
      {outcome : Outcome} (ended : (lookup.step decode e).outcome = some outcome) :
      Reacts cache q (.tsdns lookup servers domains) (.socket index e) q
        (tsdnsAnswered isIP (q.target isIP).port (lookup.step decode e)
          (askServers isIP q.signal (q.target isIP).host (q.target isIP).port domains servers))
  | reading {lookup : Lookup} (servers domains : List Str) (index : Nat) {e : SocketEvent}
      (still : (lookup.step decode e).outcome = none) :
      Reacts cache q (.tsdns lookup servers domains) (.socket index e) q
        { next := .waits (.tsdns (lookup.step decode e) servers domains) }
  | serverAborted (lookup : Lookup) (servers domains : List Str) (cause : AbortReason) :
      Reacts cache q (.tsdns lookup servers domains) (.abort cause) (q.abort cause)
        (tsdnsAnswered isIP (q.target isIP).port (lookup.step decode (.abort cause))
          (askServers isIP (q.abort cause).signal (q.target isIP).host (q.target isIP).port domains
            servers))
  | direct (lookups : List Lookup) (index : Nat) (e : SocketEvent) :
      Reacts cache q (.direct lookups) (.socket index e) q
        (q.directEvent isIP decode lookups index e)
  | directAborted (lookups : List Lookup) (cause : AbortReason) :
      Reacts cache q (.direct lookups) (.abort cause) (q.abort cause)
        ((q.abort cause).directAborted isIP decode lookups cause)

variable {isIP decode}

/-- There is nothing else that it does. -/
theorem reacts_of_react {cache : Str → Option (List ResolvedAddr)} {q q' : Request} {wait : Wait}
    {reply : Reply} {turn : Turn} (h : q.react isIP decode cache wait reply = some (q', turn)) :
    q.Reacts isIP decode cache wait reply q' turn := by
  cases wait with
  | nickname =>
    cases reply with
    | nickname response =>
      have hpair : q.nicknameAnswered isIP decode cache response = (q', turn) := Option.some.inj h
      have hreacts : q.Reacts isIP decode cache .nickname (.nickname response) _ _ :=
        .nickname response
      rw [hpair] at hreacts
      exact hreacts
    | abort cause =>
      obtain ⟨rfl, rfl⟩ := Prod.mk.inj (Option.some.inj h)
      exact .nicknameAborted cause
    | srv answer => cases h
    | socket index e => cases h
  | srv =>
    cases reply with
    | srv answer =>
      obtain ⟨rfl, rfl⟩ := Prod.mk.inj (Option.some.inj h)
      exact .srv answer
    | abort cause =>
      obtain ⟨rfl, rfl⟩ := Prod.mk.inj (Option.some.inj h)
      exact .srvAborted cause
    | nickname response => cases h
    | socket index e => cases h
  | tsdnsSrv domain domains =>
    cases reply with
    | srv answer =>
      obtain ⟨rfl, rfl⟩ := Prod.mk.inj (Option.some.inj h)
      exact .domain domain domains answer
    | abort cause =>
      obtain ⟨rfl, rfl⟩ := Prod.mk.inj (Option.some.inj h)
      exact .domainAborted domain domains cause
    | nickname response => cases h
    | socket index e => cases h
  | tsdns lookup servers domains =>
    cases reply with
    | socket index e =>
      rw [react] at h
      dsimp only at h
      cases hended : (lookup.step decode e).outcome with
      | none =>
        rw [hended, if_neg (by simp)] at h
        obtain ⟨rfl, rfl⟩ := Prod.mk.inj (Option.some.inj h)
        exact .reading servers domains index hended
      | some outcome =>
        rw [hended, if_pos Option.isSome_some] at h
        obtain ⟨rfl, rfl⟩ := Prod.mk.inj (Option.some.inj h)
        exact .server servers domains index hended
    | abort cause =>
      obtain ⟨rfl, rfl⟩ := Prod.mk.inj (Option.some.inj h)
      exact .serverAborted lookup servers domains cause
    | nickname response => cases h
    | srv answer => cases h
  | direct lookups =>
    cases reply with
    | socket index e =>
      obtain ⟨rfl, rfl⟩ := Prod.mk.inj (Option.some.inj h)
      exact .direct lookups index e
    | abort cause =>
      obtain ⟨rfl, rfl⟩ := Prod.mk.inj (Option.some.inj h)
      exact .directAborted lookups cause
    | nickname response => cases h
    | srv answer => cases h

end Request

structure Resolver where
  cache : InsertionMap Str (List ResolvedAddr) := .empty
  /-- `Date.now()`. -/
  now : Nat := 0
  resolutions : List Resolution := []

inductive ResolverEvent
  | clock (now : Nat)
  /-- `aborted`: the reason of the caller's signal, if it had aborted before. -/
  | resolve (inputAddr : Str) (aborted : Option Nat)
  | reply (id : Nat) (reply : Reply)

namespace Resolver

def getValidCache (r : Resolver) (inputAddr : Str) : Option (List ResolvedAddr) :=
  match r.cache.get? inputAddr with
  | none | some [] => none
  | some (first :: rest) =>
    if first.expiry.any fun expiry => expiry < r.now then none else some (first :: rest)

/-- What `#setCache` keeps. -/
def withExpiry (r : Resolver) (results : Found) : List ResolvedAddr :=
  results.map fun result =>
    { addr := result.1, source := result.2, expiry := some (r.now + cacheTtlMs) }

section

variable (isIP : Str → Nat)

/-- What `resolve` comes to where `#resolve` throws: the caller's signal has aborted, or the budget
is over. -/
def thrown (q : Request) : Except ResolveError (List ResolvedAddr) :=
  match q.caller with
  | some reason => .error (.aborted reason)
  | none =>
    let { host, port } := splitHostPort isIP q.inputAddr
    .ok [{ addr := joinHostPort isIP host port, source := .direct }]

def phaseAfter (r : Resolver) (q : Request) : Next → Phase
  | .waits wait => .waits wait
  | .answers addrs => .settled (.ok addrs)
  | .found addrs => .settled (.ok (r.withExpiry addrs))
  | .throws => .settled (thrown isIP q)

def cacheAfter (r : Resolver) (q : Request) : Next → InsertionMap Str (List ResolvedAddr)
  | .found addrs => r.cache.set q.address (r.withExpiry addrs)
  | _ => r.cache

/-- The resolution after a turn. -/
def after (r : Resolver) (q : Request) (turn : Turn) : Resolution :=
  { q.turned turn with phase := r.phaseAfter isIP q turn.next }

variable (decode : Bytes → Str) (nicknameLookup : Bool)

def resolve (r : Resolver) (inputAddr : Str) (aborted : Option Nat) : Resolver :=
  if inputAddr = [] then
    { r with
      resolutions := r.resolutions ++
        [{ inputAddr, address := inputAddr
           phase := .settled (.error (.invalid ⟨inputAddr, .of "empty address"⟩)) }] }
  else
    let q : Request :=
      { inputAddr, address := inputAddr, caller := aborted, signal := aborted.map .caller }
    let turn := resolveAddress isIP q.signal nicknameLookup inputAddr (r.getValidCache inputAddr)
    { r with
      cache := r.cacheAfter q turn.next
      resolutions := r.resolutions ++ [r.after isIP q turn] }

def reply (r : Resolver) (id : Nat) (reply : Reply) : Resolver :=
  match r.resolutions[id]? with
  | none => r
  | some t =>
    match t.phase with
    | .settled _ => r
    | .waits wait =>
      match t.toRequest.react isIP decode r.getValidCache wait reply with
      | none => r
      | some (q, turn) =>
        { r with
          cache := r.cacheAfter q turn.next
          resolutions := r.resolutions.set id (r.after isIP q turn) }

def step (r : Resolver) : ResolverEvent → Resolver
  | .clock now => { r with now }
  | .resolve inputAddr aborted => r.resolve isIP nicknameLookup inputAddr aborted
  | .reply id reply => r.reply isIP decode id reply

/-- What may happen to a resolver, and what becomes of it. -/
inductive Steps (r : Resolver) : ResolverEvent → Resolver → Prop
  | clock (now : Nat) : Steps r (.clock now) { r with now }
  | invalid {inputAddr : Str} {aborted : Option Nat} (empty : inputAddr = []) :
      Steps r (.resolve inputAddr aborted)
        { r with
          resolutions := r.resolutions ++
            [{ inputAddr, address := inputAddr
               phase := .settled (.error (.invalid ⟨inputAddr, .of "empty address"⟩)) }] }
  | begun {inputAddr : Str} {aborted : Option Nat} {q : Request} {turn : Turn}
      (given : inputAddr ≠ [])
      (request : q =
        { inputAddr, address := inputAddr, caller := aborted, signal := aborted.map .caller })
      (begins : turn =
        resolveAddress isIP q.signal nicknameLookup inputAddr (r.getValidCache inputAddr)) :
      Steps r (.resolve inputAddr aborted)
        { r with
          cache := r.cacheAfter q turn.next
          resolutions := r.resolutions ++ [r.after isIP q turn] }
  | missed (id : Nat) (reply : Reply) : Steps r (.reply id reply) r
  | reacted {id : Nat} {reply : Reply} {t : Resolution} {wait : Wait} {q : Request} {turn : Turn}
      (at_id : r.resolutions[id]? = some t) (waits : t.phase = .waits wait)
      (reacts : t.toRequest.react isIP decode r.getValidCache wait reply = some (q, turn)) :
      Steps r (.reply id reply)
        { r with
          cache := r.cacheAfter q turn.next
          resolutions := r.resolutions.set id (r.after isIP q turn) }

variable {isIP decode nicknameLookup}

/-- Nothing else becomes of it. -/
theorem steps_of_step {r r' : Resolver} {e : ResolverEvent}
    (h : r.step isIP decode nicknameLookup e = r') : r.Steps isIP decode nicknameLookup e r' := by
  subst h
  cases e with
  | clock now => exact .clock now
  | resolve inputAddr aborted =>
    rw [step, resolve]
    split
    · rename_i hempty
      exact .invalid hempty
    · rename_i hgiven
      exact .begun hgiven rfl rfl
  | reply id reply =>
    rw [step, Resolver.reply]
    split
    · exact .missed id reply
    · rename_i t ht
      split
      · exact .missed id reply
      · rename_i wait hphase
        split
        · exact .missed id reply
        · rename_i q turn hreact
          exact .reacted ht hphase hreact

end

end Resolver

end Teamspeak.Client
