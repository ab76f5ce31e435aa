import Teamspeak.Lib.Callback
import Teamspeak.Stream.Wire

/-!
# Streams

`streams.ts`, `published.ts`, `peer.ts`, `emitter.ts` and `wait.ts`: publishing streams
and watching them.  Published streams, peers, join requests and watches are objects, each
with the events its emitter has given out; `published`, `watching` and the maps of a
stream hold them by number.

An event that is emitted runs the listeners of the application there and then, and these
may publish, watch, stop, close, answer or dispose before the code that emitted goes on.
What that code has left to do is a list of operations (`Op`), and `Op.listen` is where
listeners run.  What the client delivers (`Event`) starts a turn of its own, since the
client queues it.

A promise is settled in one turn and heard in another: a call that gave up notes it
(`noted`, `caught`), or hears what it waits for (`heard`, `heardWatch`), in a later one.

Some fields are no state of the code: what the emitters have given out, what the calls
have come to (`caller`, `call` and `answers`), `trace`, and `jobs`, the commands whose
answer something waits for.
-/

namespace Teamspeak.Stream

/-! ### Objects -/

inductive EndCause
  | stopped
  | server
  | gone
  | disconnected
  | disposed
  deriving DecidableEq

/-- What `ended` tells. -/
structure StreamEnded where
  cause : EndCause
  reason : Nat
  deriving DecidableEq

inductive PeerCloseCause
  | closed
  | left
  | stopped
  | disconnected
  | disposed
  deriving DecidableEq

/-- What `closed` tells. -/
structure PeerClosed where
  cause : PeerCloseCause
  reason : Option Nat := none
  deriving DecidableEq

/-- Why the peers of a stream that has ended close. -/
def StreamEnded.closed (ended : StreamEnded) : PeerClosed :=
  match ended.cause with
  | .disconnected => { cause := .disconnected }
  | .disposed => { cause := .disposed }
  | _ => { cause := .stopped, reason := some ended.reason }

/-- Why a command or a call fails. -/
inductive Failure
  | notConnected
  | server (code : Nat)
  | streamEnded
  | denied
  | disposed
  | noStream
  | noOffer
  | timedOut
  | aborted
  | other
  deriving DecidableEq

/-- `ErrorCode.StreamNotFound`. -/
def streamNotFound : Nat := 5635

/-- What `#send` makes of a failure: a stream the server does not know has ended. -/
def Failure.sent : Failure → Failure
  | .server code => if code = streamNotFound then .streamEnded else .server code
  | failure => failure

/-- Whether a request to watch that fails so needs no withdrawal. -/
def Failure.answered : Failure → Bool
  | .denied | .notConnected | .server _ => true
  | _ => false

/-- A promise settled from outside. -/
inductive Outcome (α : Type*)
  | pending
  | resolved (a : α)
  | rejected (failure : Failure)
  deriving DecidableEq

/-- Settle a promise, which only the first time does anything. -/
def Outcome.settle {α : Type*} (outcome result : Outcome α) : Outcome α :=
  match outcome with
  | .pending => result
  | outcome => outcome

abbrev PubID := Nat
abbrev PeerID := Nat
abbrev RequestID := Nat
abbrev SlotID := Nat
abbrev WatchID := Nat
abbrev CallID := Nat

/-- Where a peer's link leads: to the stream that let the viewer in, or to the watch. -/
inductive Owner
  | viewer (p : PubID)
  | view (w : WatchID)
  deriving DecidableEq

inductive PeerEvent
  | signal (json : Str)
  | closed (closed : PeerClosed)
  deriving DecidableEq

structure Peer where
  streamId : Str := []
  clientId : ClientID := 0
  owner : Owner := .viewer 0
  closed : Bool := false
  emitted : List PeerEvent := []

/-- Who a viewer is, as far as that is known. -/
structure Identity where
  uid : Option Str := none
  nickname : Option Str := none
  deriving DecidableEq

/-- A request waiting to be announced. -/
structure Slot where
  stream : PubID := 0
  clientId : ClientID := 0
  message : Str := []
  identity : Option Identity := none
  looking : Bool := false

inductive RequestState
  | pending
  | accepted
  | denied
  | failed
  | withdrawn
  | ended
  deriving DecidableEq

structure JoinRequest where
  stream : PubID := 0
  clientId : ClientID := 0
  identity : Identity := {}
  message : Str := []
  state : RequestState := .pending
  /-- The causes of its `closed` events. -/
  emitted : List RequestState := []

inductive PubEvent
  | request (r : RequestID)
  | ended (ended : StreamEnded)
  deriving DecidableEq

structure Published where
  id : Str := []
  ended : Bool := false
  peers : InsertionMap ClientID PeerID := .empty
  pending : InsertionMap ClientID RequestID := .empty
  resolving : InsertionMap ClientID SlotID := .empty
  slots : List SlotID := []
  closedViewers : List ClientID := []
  emitted : List PubEvent := []

/-- A `publish` whose `setupstream` is out, and what became of it. -/
structure Attempt where
  outcome : Outcome PubID := .pending
  abandoned : Bool := false
  reset : Bool := false
  /-- Its `setupstream` is out. -/
  sending : Bool := false
  /-- What `within` has come to. -/
  caller : Outcome PubID := .pending

/-- Where a call of `watch` stands. -/
inductive WatchCall
  /-- the request is being sent -/
  | sending
  /-- it waits for the publisher's answer -/
  | waiting
  /-- it failed, with its `catch` still to run -/
  | thrown (failure : Failure)
  /-- its `catch` waits for what settles the watch -/
  | owed
  | settled
  deriving DecidableEq

structure Watch where
  id : Str := []
  streamer : ClientID := 0
  early : List Str := []
  overflowed : Bool := false
  settled : Outcome PeerID := .pending
  view : Option PeerID := none
  /-- The request was handed to the connection. -/
  sent : Bool := false
  call : WatchCall := .settled
  /-- What the call has come to. -/
  answers : List (Except Failure PeerID) := []

/-! ### The Streams -/

/-- The commands sent. -/
inductive Command
  | setupstream (k : CallID)
  | joinstreamrequest (id : Str) (streamer : ClientID) (isRemove : Bool)
  | respondjoinstreamrequest (r : RequestID) (decision : Bool)
  | stopstream (id : Str) (reason : Nat)
  | requeststreaminfo (clid : ClientID)
  deriving DecidableEq

/-- What a run shows: the commands sent, the events of the Streams, what answers
`setupstream`, whether in a connection, and which streams the server says it stopped. -/
inductive Output
  | sent (command : Command)
  | started (info : StreamInfo)
  | updated (info : StreamInfo)
  | stopped (info : StreamInfo) (cause : EndCause) (reason : Nat)
  | viewerJoined (info : StreamInfo) (clid : ClientID)
  | viewerLeft (info : StreamInfo) (clid : ClientID)
  | error
  | warning (id : Str) (clid : ClientID)
  | announced (k : CallID) (id : Str) (connected : Bool)
  | stopReported (id : Str)
  deriving DecidableEq

/-- The commands with an answer that something goes on from, but for those of `publish`
and `watch`. -/
inductive Job
  | accept (r : RequestID) (q : PeerID)
  | deny (r : RequestID)
  | stop (p : PubID) (reason : Nat)
  | goodbye
  | discover (clid : ClientID)
  deriving DecidableEq

/-- The objects, and the maps that hold them. -/
structure Session where
  published : InsertionMap Str PubID := .empty
  watching : InsertionMap Str WatchID := .empty
  pubs : Nat → Published := fun _ => {}
  peers : Nat → Peer := fun _ => {}
  requests : Nat → JoinRequest := fun _ => {}
  slots : Nat → Slot := fun _ => {}
  watches : Nat → Watch := fun _ => {}
  nextPub : Nat := 0
  nextPeer : Nat := 0
  nextRequest : Nat := 0
  nextSlot : Nat := 0
  nextWatch : Nat := 0

structure Streams extends Session where
  rememberDenied : Bool := false
  /-- `client.clientID`. -/
  self : ClientID := 0
  /-- `client.status` is `"connected"`. -/
  connected : Bool := false
  /-- The server names `STREAM_P2P`. -/
  supported : Bool := false
  /-- The clients in view. -/
  view : ClientID → Option Identity := fun _ => none
  infos : InsertionMap Str StreamInfo := .empty
  asked : List ClientID := []
  goneTimers : List ClientID := []
  denied : List Str := []
  closedViews : List Str := []
  publishing : List CallID := []
  orphans : List Str := []
  stopped : List Str := []
  disposed : Bool := false
  attempts : Nat → Attempt := fun _ => {}
  nextCall : Nat := 0
  jobs : List Job := []
  trace : List Output := []

/-- What is left to do in a turn. -/
inductive Op
  /-- the listeners of the event just emitted run -/
  | listen
  /-- the rest of `#adopt` and of `#setup`, after `#learn` -/
  | adopted (k : CallID) (info : StreamInfo)
  /-- the rest of `#orphan` and of `#setup`, after `#end` -/
  | orphaned (k : CallID) (id : Str)
  /-- the rest of `#end`, after the published stream is finished -/
  | endWatch (id : Str) (info : Option StreamInfo) (cause : EndCause) (reason : Nat)
  /-- the last of `#end` -/
  | stoppedEvent (info : Option StreamInfo) (cause : EndCause) (reason : Nat)
  | finish (p : PubID) (ended : StreamEnded)
  /-- the loop of `finish` through the requests -/
  | closeRequests (p : PubID) (rs : List RequestID) (ended : StreamEnded)
  /-- the loop of `finish` through the peers, and its end -/
  | endPeers (p : PubID) (qs : List PeerID) (ended : StreamEnded)
  | endPeer (q : PeerID) (closed : PeerClosed)
  /-- the rest of `close`, which leaves the stream -/
  | leave (q : PeerID)
  /-- `#reset`, after its published streams -/
  | forgetDenied
  | closeWatch (w : WatchID) (gone : Failure) (cause : PeerCloseCause)
  | forgetClosedViews
  /-- the loop of the grace timer -/
  | endGone (clid : ClientID) (ids : List Str)
  /-- the loop of `clientLeave` -/
  | leaveStreams (clid : ClientID) (ps : List PubID)
  | dropPending (p : PubID) (clid : ClientID)
  /-- the rest of `dropPending`, after `#advance` -/
  | dropRequest (p : PubID) (clid : ClientID)
  | deletePending (p : PubID) (clid : ClientID)
  | advance (p : PubID)
  /-- the second loop of `#advance` -/
  | announce (p : PubID)
  /-- the rest of `viewerGone` -/
  | endViewer (p : PubID) (clid : ClientID)
  /-- the rest of `#onClientLeft`, after the published stream -/
  | viewLeft (id : Str) (clid : ClientID)
  | viewerLeft (id : Str) (clid : ClientID)
  /-- the rest of `notifystreamstopped`, after `#end` -/
  | unorphan (id : Str)
  /-- the rest of `accept`, after the warning -/
  | accepting (r : RequestID)
  /-- the rest of the `catch` of `watch`, after `#end` -/
  | rejectWatch (w : WatchID) (failure : Failure)

/-- A state, and what is to follow. -/
abbrev Turn := Streams × List Op

def maxEarlySignals : Nat := 256
def maxDenied : Nat := 1024
def maxClosedViews : Nat := 1024
def maxClosedViewers : Nat := 1024
def maxOrphans : Nat := 16
def maxStopped : Nat := 256

/-- Adding to a set of which the oldest goes past `bound`. -/
def remember {α : Type*} [DecidableEq α] (bound : Nat) (a : α) (l : List α) : List α :=
  let l := if a ∈ l then l else l ++ [a]
  if l.length > bound then l.tail else l

/-- The same, with what is there already made the newest. -/
def renew {α : Type*} [DecidableEq α] (bound : Nat) (a : α) (l : List α) : List α :=
  remember bound a (l.erase a)

namespace Streams

/-! ### Writing to objects -/

def modifyPub (s : Streams) (p : PubID) (f : Published → Published) : Streams :=
  { s with pubs := fun j => if j = p then f (s.pubs p) else s.pubs j }

def modifyPeer (s : Streams) (q : PeerID) (f : Peer → Peer) : Streams :=
  { s with peers := fun j => if j = q then f (s.peers q) else s.peers j }

def modifyRequest (s : Streams) (r : RequestID) (f : JoinRequest → JoinRequest) : Streams :=
  { s with requests := fun j => if j = r then f (s.requests r) else s.requests j }

def modifySlot (s : Streams) (sl : SlotID) (f : Slot → Slot) : Streams :=
  { s with slots := fun j => if j = sl then f (s.slots sl) else s.slots j }

def modifyWatch (s : Streams) (w : WatchID) (f : Watch → Watch) : Streams :=
  { s with watches := fun j => if j = w then f (s.watches w) else s.watches j }

def modifyAttempt (s : Streams) (k : CallID) (f : Attempt → Attempt) : Streams :=
  { s with attempts := fun j => if j = k then f (s.attempts k) else s.attempts j }

@[simp] theorem pubs_modifyPub (s : Streams) (i : PubID) (f : Published → Published) (j : PubID) :
    (s.modifyPub i f).pubs j = if j = i then f (s.pubs i) else s.pubs j := rfl

@[simp] theorem peers_modifyPeer (s : Streams) (i : PeerID) (f : Peer → Peer) (j : PeerID) :
    (s.modifyPeer i f).peers j = if j = i then f (s.peers i) else s.peers j := rfl

@[simp] theorem requests_modifyRequest (s : Streams) (i : RequestID)
    (f : JoinRequest → JoinRequest) (j : RequestID) :
    (s.modifyRequest i f).requests j = if j = i then f (s.requests i) else s.requests j := rfl

@[simp] theorem slots_modifySlot (s : Streams) (i : SlotID) (f : Slot → Slot) (j : SlotID) :
    (s.modifySlot i f).slots j = if j = i then f (s.slots i) else s.slots j := rfl

@[simp] theorem watches_modifyWatch (s : Streams) (i : WatchID) (f : Watch → Watch) (j : WatchID) :
    (s.modifyWatch i f).watches j = if j = i then f (s.watches i) else s.watches j := rfl

@[simp] theorem attempts_modifyAttempt (s : Streams) (i : CallID) (f : Attempt → Attempt)
    (j : CallID) :
    (s.modifyAttempt i f).attempts j = if j = i then f (s.attempts i) else s.attempts j := rfl

def emit (s : Streams) (output : Output) : Streams := { s with trace := s.trace ++ [output] }

/-- `client.send`. -/
def send (s : Streams) (command : Command) : Streams := s.emit (.sent command)

/-- `client.send`, and what goes on from its answer. -/
def request (s : Streams) (command : Command) (job : Job) : Streams :=
  { s.send command with jobs := s.jobs ++ [job] }

/-- `#bestEffort`. -/
def bestEffort (s : Streams) (command : Command) : Streams := s.request command .goodbye

/-! ### Peers -/

/-- `deliver`. -/
def deliver (s : Streams) (q : PeerID) (json : Str) : Turn :=
  if (s.peers q).closed then (s, [])
  else
    (s.modifyPeer q fun peer => { peer with emitted := peer.emitted ++ [PeerEvent.signal json] },
      [.listen])

/-- `link.closed`. -/
def linkClosed (s : Streams) (q : PeerID) : Streams :=
  let peer := s.peers q
  match peer.owner with
  | .viewer p =>
    if (s.pubs p).peers.get? peer.clientId = some q then
      s.modifyPub p fun pub =>
        { pub with
          peers := pub.peers.delete peer.clientId
          closedViewers := remember maxClosedViewers peer.clientId pub.closedViewers }
    else s
  | .view w =>
    let id := (s.watches w).id
    let held := (s.watching.get? id).bind fun w => (s.watches w).view
    { s with
      watching := if held = some q then s.watching.delete id else s.watching
      closedViews := renew maxClosedViews id s.closedViews }

/-- `end`. -/
def endPeer (s : Streams) (q : PeerID) (closed : PeerClosed) : Turn :=
  if (s.peers q).closed then (s, [])
  else
    (((s.modifyPeer q fun peer => { peer with closed := true }).linkClosed q).modifyPeer q
      fun peer => { peer with emitted := peer.emitted ++ [PeerEvent.closed closed] }, [.listen])

/-- `close`. -/
def closePeer (s : Streams) (q : PeerID) : Turn :=
  if (s.peers q).closed then (s, []) else (s, [.endPeer q { cause := .closed }, .leave q])

/-- `link.leave`, which a viewer's peer has not. -/
def leave (s : Streams) (q : PeerID) : Streams :=
  match (s.peers q).owner with
  | .viewer _ => s
  | .view w => s.send (.joinstreamrequest (s.watches w).id (s.watches w).streamer true)

/-! ### Join requests -/

/-- `close`. -/
def closeRequest (s : Streams) (r : RequestID) (cause : RequestState) : Turn :=
  if (s.requests r).state ≠ .pending then (s, [])
  else
    (s.modifyRequest r fun request =>
      { request with state := cause, emitted := request.emitted ++ [cause] }, [.listen])

/-- `openViewer`. -/
def openViewer (s : Streams) (p : PubID) (clid : ClientID) : Streams :=
  let q := s.nextPeer
  ({ s with nextPeer := q + 1 }.modifyPeer q fun _ =>
    { streamId := (s.pubs p).id, clientId := clid, owner := .viewer p }).modifyPub p fun pub =>
    { pub with
      closedViewers := pub.closedViewers.erase clid
      peers := pub.peers.set clid q }

/-- `accept`, up to the warning. -/
def accept (s : Streams) (r : RequestID) (offer : Str) (fits : Bool) : Turn :=
  let request := s.requests r
  if offer = [] ∨ request.state ≠ .pending ∨ fits = false then (s, [])
  else if hasAudioSection offer then (s, [.accepting r])
  else (s.emit (.warning (s.pubs request.stream).id request.clientId), [.listen, .accepting r])

/-- The rest of `accept`, up to where it waits for the answer. -/
def accepting (s : Streams) (r : RequestID) : Streams :=
  let request := s.requests r
  ((s.modifyRequest r fun request => { request with state := .accepted }).openViewer
    request.stream request.clientId).request (.respondjoinstreamrequest r true)
    (.accept r s.nextPeer)

/-- `deny`. -/
def deny (s : Streams) (r : RequestID) (fits : Bool) : Streams :=
  if (s.requests r).state ≠ .pending ∨ fits = false then s
  else
    (s.modifyRequest r fun request => { request with state := .denied }).request
      (.respondjoinstreamrequest r false) (.deny r)

/-- `host.isDenied`. -/
def isDenied (s : Streams) (identity : Identity) : Bool :=
  s.rememberDenied ∧ identity.uid.elim false fun uid => uid ∈ s.denied

/-- `host.remember`. -/
def rememberViewer (s : Streams) (identity : Identity) : Streams :=
  match identity.uid with
  | none => s
  | some uid => if s.rememberDenied then { s with denied := renew maxDenied uid s.denied } else s

/-! ### Published streams -/

/-- The first loop of `#advance`: the lookups that are not out. -/
def lookUp (p : PubID) (s : Streams) (sl : SlotID) : Streams :=
  let slot := s.slots sl
  if slot.identity.isSome ∨ slot.looking then s
  else if (s.pubs p).resolving.get? slot.clientId ≠ some sl then s
  else
    match s.view slot.clientId with
    | some identity => s.modifySlot sl fun slot => { slot with identity := some identity }
    | none => s.modifySlot sl fun slot => { slot with looking := true }

/-- `#advance`. -/
def advance (s : Streams) (p : PubID) : Turn :=
  ((s.pubs p).slots.foldl (lookUp p) s, [.announce p])

/-- `#announce`. -/
def announceSlot (s : Streams) (p : PubID) (slot : Slot) (identity : Identity) : Turn :=
  let s := s.modifyPub p fun pub => { pub with resolving := pub.resolving.delete slot.clientId }
  if s.isDenied identity then (s, [])
  else
    let r := s.nextRequest
    (({ s with nextRequest := r + 1 }.modifyRequest r fun _ =>
      { stream := p, clientId := slot.clientId, identity, message := slot.message }).modifyPub p
      fun pub =>
        { pub with
          pending := pub.pending.set slot.clientId r
          emitted := pub.emitted ++ [PubEvent.request r] }, [.listen])

/-- The second loop of `#advance`: a request waits for the ones ahead of it. -/
def announce (s : Streams) (p : PubID) : Turn :=
  match (s.pubs p).slots with
  | [] => (s, [])
  | head :: rest =>
    let slot := s.slots head
    let shifted := s.modifyPub p fun pub => { pub with slots := rest }
    if (s.pubs p).resolving.get? slot.clientId = some head ∧ (s.pubs p).ended = false then
      match slot.identity with
      | none => (s, [])
      | some identity =>
        let announced := shifted.announceSlot p slot identity
        (announced.1, announced.2 ++ [.announce p])
    else (shifted, [.announce p])

/-- `request`. -/
def requestViewer (s : Streams) (p : PubID) (clid : ClientID) (message : Str) : Turn :=
  let pub := s.pubs p
  if pub.ended ∨ pub.peers.has clid ∨ pub.resolving.has clid then (s, [])
  else if (pub.pending.get? clid).elim false fun r => (s.requests r).state = .pending then (s, [])
  else
    let sl := s.nextSlot
    (({ s with nextSlot := sl + 1 }.modifySlot sl fun _ =>
      { stream := p, clientId := clid, message }).modifyPub p fun pub =>
        { pub with resolving := pub.resolving.set clid sl, slots := pub.slots ++ [sl] },
      [.advance p])

/-- `slots.splice(slots.indexOf(slot), 1)`, which takes the last for one that is not there. -/
def splice (slots : List SlotID) (sl : SlotID) : List SlotID :=
  if sl ∈ slots then slots.erase sl else slots.dropLast

/-- `dropPending`, up to `#advance`. -/
def dropPending (s : Streams) (p : PubID) (clid : ClientID) : Turn :=
  match (s.pubs p).resolving.get? clid with
  | none => (s, [.dropRequest p clid])
  | some sl =>
    (s.modifyPub p fun pub =>
      { pub with
        resolving := pub.resolving.delete clid
        slots := if (s.slots sl).looking then pub.slots else splice pub.slots sl },
      [.advance p, .dropRequest p clid])

/-- `this.#pending.get(clientId)?.close("withdrawn")`. -/
def dropRequest (s : Streams) (p : PubID) (clid : ClientID) : Turn :=
  match (s.pubs p).pending.get? clid with
  | none => (s, [.deletePending p clid])
  | some r =>
    let closed := s.closeRequest r .withdrawn
    (closed.1, closed.2 ++ [.deletePending p clid])

def deletePending (s : Streams) (p : PubID) (clid : ClientID) : Streams :=
  s.modifyPub p fun pub => { pub with pending := pub.pending.delete clid }

/-- `viewerGone`. -/
def viewerGone (p : PubID) (clid : ClientID) : List Op := [.dropPending p clid, .endViewer p clid]

def endViewer (s : Streams) (p : PubID) (clid : ClientID) : Turn :=
  match (s.pubs p).peers.get? clid with
  | none => (s, [])
  | some q => (s, [.endPeer q { cause := .left }])

/-- `finish`, up to its loops.  The requests are those it finds: none is made while they
are closed. -/
def finish (s : Streams) (p : PubID) (ended : StreamEnded) : Turn :=
  if (s.pubs p).ended then (s, [])
  else
    (s.modifyPub p fun pub => { pub with ended := true, slots := [], resolving := .empty },
      [.closeRequests p ((s.pubs p).pending.entries.map Prod.snd) ended])

def closeRequests (s : Streams) (p : PubID) (ended : StreamEnded) : List RequestID → Turn
  | [] =>
    (s.modifyPub p fun pub => { pub with pending := .empty },
      [.endPeers p ((s.pubs p).peers.entries.map Prod.snd) ended])
  | r :: rs =>
    let closed := s.closeRequest r .ended
    (closed.1, closed.2 ++ [.closeRequests p rs ended])

def endPeers (s : Streams) (p : PubID) (ended : StreamEnded) : List PeerID → Turn
  | [] =>
    (s.modifyPub p fun pub => { pub with emitted := pub.emitted ++ [PubEvent.ended ended] },
      [.listen])
  | q :: qs => (s, [.endPeer q ended.closed, .endPeers p qs ended])

/-! ### Ending -/

/-- `#cancelGone`. -/
def cancelGone (s : Streams) (clid : ClientID) : Streams :=
  { s with goneTimers := s.goneTimers.erase clid }

/-- `#end`, up to the watch. -/
def endStream (s : Streams) (id : Str) (cause : EndCause) (reason : Nat) : Turn :=
  let s := if cause = .gone then s else { s with stopped := renew maxStopped id s.stopped }
  let info := s.infos.get? id
  let s := { s with infos := s.infos.delete id }
  let s :=
    match info with
    | none => s
    | some info =>
      if s.infos.entries.any fun e => e.2.clientId = info.clientId then s
      else s.cancelGone info.clientId
  ({ s with published := s.published.delete id },
    ((s.published.get? id).map fun p => Op.finish p ⟨cause, reason⟩).toList ++
      [.endWatch id info cause reason])

def rejectSettled (s : Streams) (w : WatchID) (failure : Failure) : Streams :=
  s.modifyWatch w fun watch => { watch with settled := watch.settled.settle (.rejected failure) }

/-- `#end`, for the watch. -/
def endWatch (s : Streams) (id : Str) (info : Option StreamInfo) (cause : EndCause) (reason : Nat) :
    Turn :=
  match s.watching.get? id with
  | none => (s, [.stoppedEvent info cause reason])
  | some w =>
    let s := { s with watching := s.watching.delete id }
    match (s.watches w).view with
    | some q =>
      (s, [.endPeer q { cause := .stopped, reason := some reason },
        .stoppedEvent info cause reason])
    | none => (s.rejectSettled w .streamEnded, [.stoppedEvent info cause reason])

/-- `#end`, for the listeners of the Streams. -/
def stoppedEvent (s : Streams) (info : Option StreamInfo) (cause : EndCause) (reason : Nat) :
    Turn :=
  match info with
  | none => (s, [])
  | some info => (s.emit (.stopped info cause reason), [.listen])

/-- What `#reset` tells the server of while the connection is up. -/
def goodbyes (s : Streams) : Streams :=
  if s.connected then
    let s := s.published.entries.foldl (fun s e => s.bestEffort (.stopstream (s.pubs e.2).id 0)) s
    s.watching.entries.foldl
      (fun s e => s.bestEffort (.joinstreamrequest e.1 (s.watches e.2).streamer true)) s
  else s

/-- `#reset` of one `publish` that waits. -/
def resetAttempt (gone : Failure) (s : Streams) (k : CallID) : Streams :=
  s.modifyAttempt k fun attempt =>
    { attempt with reset := true, outcome := attempt.outcome.settle (.rejected gone) }

/-- `#reset`, up to where it closes everything. -/
def reset (s : Streams) (gone : Failure) (ended : EndCause) (cause : PeerCloseCause) : Turn :=
  let published := s.published.entries.map Prod.snd
  let watching := s.watching.entries.map Prod.snd
  let s := s.publishing.foldl (resetAttempt gone) s
  let s := { s with publishing := [], orphans := [], stopped := [] }.goodbyes
  ({ s with
      goneTimers := [], published := .empty, watching := .empty, infos := .empty, asked := [] },
    published.map (fun p => Op.finish p ⟨ended, 0⟩) ++
      (if ended = .disposed then [Op.forgetDenied] else []) ++
      watching.map (fun w => Op.closeWatch w gone cause) ++ [.forgetClosedViews])

def closeWatch (s : Streams) (w : WatchID) (gone : Failure) (cause : PeerCloseCause) : Turn :=
  match (s.watches w).view with
  | some q => (s, [.endPeer q { cause }])
  | none => (s.rejectSettled w gone, [])

/-- `dispose`. -/
def dispose (s : Streams) : Turn :=
  if s.disposed then (s, []) else { s with disposed := true }.reset .disposed .disposed .disposed

/-- The connection ended. -/
def disconnected (s : Streams) : Turn := s.reset .notConnected .disconnected .disconnected

/-! ### Publishing -/

/-- `#assertUsable`. -/
def usable (s : Streams) : Bool := s.disposed = false ∧ s.supported

/-- `publish`, whose parameters are in range, up to where it waits. -/
def publish (s : Streams) : Streams :=
  if s.usable = false then s
  else
    let k := s.nextCall
    ({ s with nextCall := k + 1, publishing := s.publishing ++ [k] }.modifyAttempt k fun _ =>
      { sending := true }).send (.setupstream k)

/-- `within` times out, or its signal aborts. -/
def giveUp (s : Streams) (k : CallID) (failure : Failure) : Streams :=
  s.modifyAttempt k fun attempt =>
    { attempt with caller := attempt.caller.settle (.rejected failure) }

/-- `within` hears what the attempt has come to. -/
def heard (s : Streams) (k : CallID) : Streams :=
  s.modifyAttempt k fun attempt =>
    { attempt with caller := attempt.caller.settle attempt.outcome }

/-- The `catch` of `#publishOne`. -/
def noted (s : Streams) (k : CallID) : Streams :=
  match (s.attempts k).caller with
  | .rejected _ => s.modifyAttempt k fun attempt => { attempt with abandoned := true }
  | _ => s

/-- `#learn`. -/
def learn (s : Streams) (info : StreamInfo) : Turn :=
  if info.id ∈ s.orphans then (s, [])
  else
    let learnt := { s with infos := s.infos.set info.id info }
    match s.infos.get? info.id with
    | none => (learnt.emit (.started info), [.listen])
    | some known =>
      if sameInfo known info then (learnt, []) else (learnt.emit (.updated info), [.listen])

/-- The stream that the rows of an answer describe: the last that any does. -/
def infoOf (s : Streams) (rows : List Params) : Option StreamInfo :=
  rows.foldl
    (fun found row =>
      (streamInfoFrom row (s.infos.get? ((row.get? (.of "id")).getD []))).or found) none

/-- The `finally` of `#setup`. -/
def setupDone (s : Streams) (k : CallID) : Streams :=
  { s with publishing := s.publishing.erase k }

def rejectOutcome (s : Streams) (k : CallID) (failure : Failure) : Streams :=
  s.modifyAttempt k fun attempt =>
    { attempt with outcome := attempt.outcome.settle (.rejected failure) }

/-- The `setupstream` of attempt `k` is answered with `info`. -/
def setupInfo (s : Streams) (k : CallID) (info : Option StreamInfo) : Turn :=
  let attempt := s.attempts k
  match info with
  | none =>
    if attempt.reset then (s.setupDone k, []) else ((s.rejectOutcome k .noStream).setupDone k, [])
  | some info =>
    let s := s.emit (.announced k info.id s.connected)
    if attempt.reset then
      ((if s.connected then s.bestEffort (.stopstream info.id 0) else s).setupDone k, [])
    else if attempt.abandoned then
      let ended :=
        { s with orphans := remember maxOrphans info.id s.orphans }.endStream info.id .stopped 0
      (ended.1, ended.2 ++ [.orphaned k info.id])
    else if info.id ∈ s.stopped then ((s.rejectOutcome k .streamEnded).setupDone k, [])
    else
      let learnt := s.learn info
      (learnt.1, learnt.2 ++ [.adopted k info])

/-- The `setupstream` of attempt `k` is answered. -/
def setup (s : Streams) (k : CallID) (result : Except Failure (List Params)) : Turn :=
  if (s.attempts k).sending = false then (s, [])
  else
    let s := s.modifyAttempt k fun attempt => { attempt with sending := false }
    match result with
    | .error failure => ((s.rejectOutcome k failure).setupDone k, [])
    | .ok rows => s.setupInfo k (s.infoOf rows)

/-- The rest of `#adopt` and of `#setup`. -/
def adopted (s : Streams) (k : CallID) (info : StreamInfo) : Streams :=
  let resolve (s : Streams) (p : PubID) : Streams :=
    (s.modifyAttempt k fun attempt =>
      { attempt with outcome := attempt.outcome.settle (.resolved p) }).setupDone k
  match s.published.get? info.id with
  | some p => resolve s p
  | none =>
    let p := s.nextPub
    resolve
      ({ s with nextPub := p + 1, published := s.published.set info.id p }.modifyPub p fun _ =>
        { id := info.id })
      p

/-- The rest of `#orphan` and of `#setup`. -/
def orphaned (s : Streams) (k : CallID) (id : Str) : Streams :=
  (s.bestEffort (.stopstream id 0)).setupDone k

/-- `stop`. -/
def stop (s : Streams) (p : PubID) (reason : Nat) : Streams :=
  if reason > 0xffffffff ∨ (s.pubs p).ended then s
  else s.request (.stopstream (s.pubs p).id reason) (.stop p reason)

/-! ### Watching -/

/-- `watch`, up to where its request is being sent. -/
def watch (s : Streams) (target : Str ⊕ StreamInfo) (aborted : Bool) : Streams :=
  let id := target.elim (fun id => id) StreamInfo.id
  match target.elim s.infos.get? some with
  | none => s
  | some known =>
    let elsewhere := known.transport.elim false fun
      | .number _ => true
      | .name _ => false
    if s.usable = false ∨ elsewhere ∨ s.watching.has id ∨ aborted then s
    else
      let w := s.nextWatch
      ({ s with
          nextWatch := w + 1
          watching := s.watching.set id w
          closedViews := s.closedViews.erase id }.modifyWatch w fun _ =>
        { id, streamer := known.clientId, call := .sending }).send
        (.joinstreamrequest id known.clientId false)

/-- The request of a watch is handed to the connection. -/
def onSent (s : Streams) (w : WatchID) : Streams :=
  s.modifyWatch w fun watch => { watch with sent := true }

/-- The request of a watch is answered. -/
def joined (s : Streams) (w : WatchID) (result : Except Failure Unit) : Streams :=
  if (s.watches w).call ≠ .sending then s
  else
    s.modifyWatch w fun watch =>
      match result with
      | .ok _ => { watch with sent := true, call := .waiting }
      | .error failure => { watch with call := .thrown failure.sent }

/-- `within` times out, or its signal aborts. -/
def giveUpWatch (s : Streams) (w : WatchID) (failure : Failure) : Streams :=
  if (s.watches w).call ≠ .waiting then s
  else s.modifyWatch w fun watch => { watch with call := .thrown failure }

/-- The call comes to `result`. -/
def answerWatch (s : Streams) (w : WatchID) (result : Except Failure PeerID) : Streams :=
  s.modifyWatch w fun watch =>
    { watch with call := .settled, answers := watch.answers ++ [result] }

/-- What the call waits for has settled. -/
def heardWatch (s : Streams) (w : WatchID) : Streams :=
  match (s.watches w).call, (s.watches w).settled with
  | .waiting, .resolved q => s.answerWatch w (.ok q)
  | .waiting, .rejected failure =>
    s.modifyWatch w fun watch => { watch with call := .thrown failure }
  | .owed, .resolved q => s.answerWatch w (.ok q)
  | .owed, .rejected failure => s.answerWatch w (.error failure)
  | _, _ => s

/-- The `catch` of `watch`. -/
def caught (s : Streams) (w : WatchID) : Turn :=
  let watch := s.watches w
  match watch.call with
  | .thrown failure =>
    if s.watching.get? watch.id ≠ some w ∨ watch.view.isSome then
      match watch.view with
      | some q => (s.answerWatch w (.ok q), [])
      | none =>
        if failure = .streamEnded then (s.answerWatch w (.error failure), [])
        else (s.modifyWatch w fun watch => { watch with call := .owed }, [])
    else
      let s := { s with watching := s.watching.delete watch.id }
      if failure = .streamEnded then
        let ended := s.endStream watch.id .gone 0
        (ended.1, ended.2 ++ [.rejectWatch w failure])
      else
        let left :=
          if watch.sent ∧ failure.answered = false then
            s.bestEffort (.joinstreamrequest watch.id watch.streamer true)
          else s
        (left.answerWatch w (.error failure), [])
  | _ => (s, [])

/-! ### Notifications -/

/-- `#discover`. -/
def discover (s : Streams) (clid : ClientID) : Streams :=
  if s.disposed ∨ clid = 0 ∨ clid = s.self ∨ clid ∈ s.asked ∨ s.supported = false ∨
      s.connected = false then s
  else
    { s with asked := s.asked ++ [clid] }.request (.requeststreaminfo clid) (.discover clid)

/-- `#forget`, up to the timer. -/
def forget (s : Streams) (clid : ClientID) : Streams :=
  let s := { s with asked := s.asked.erase clid }
  if clid ∈ s.goneTimers then s
  else if s.infos.entries.any fun e => e.2.clientId = clid then
    { s with goneTimers := s.goneTimers ++ [clid] }
  else s

/-- What a client that streams, or does not, changes. -/
def streaming (s : Streams) (clid : ClientID) : Option Bool → Streams
  | none => s
  | some true => (s.cancelGone clid).discover clid
  | some false => s.forget clid

/-- The grace timer of a client fires. -/
def gone (s : Streams) (clid : ClientID) : Turn :=
  if clid ∈ s.goneTimers then
    ({ s with goneTimers := s.goneTimers.erase clid },
      [.endGone clid (s.infos.entries.map Prod.fst)])
  else (s, [])

/-- The loop of the grace timer, through what it found: nothing is learnt meanwhile. -/
def endGone (s : Streams) (clid : ClientID) : List Str → Turn
  | [] => (s, [])
  | id :: ids =>
    if (s.infos.get? id).elim false fun info => info.clientId = clid then
      let ended := s.endStream id .gone 0
      (ended.1, ended.2 ++ [.endGone clid ids])
    else (s, [.endGone clid ids])

/-- The loop of `clientLeave`, through the streams it found that are still there. -/
def leaveStreams (s : Streams) (clid : ClientID) : List PubID → Turn
  | [] => (s, [])
  | p :: ps =>
    if s.published.get? (s.pubs p).id = some p then
      (s, [.dropPending p clid, .leaveStreams clid ps])
    else (s, [.leaveStreams clid ps])

def onInfo (s : Streams) (params : Params) : Turn :=
  match streamInfoFrom params (s.infos.get? ((params.get? (.of "id")).getD [])) with
  | none => (s, [])
  | some info => s.learn info

def onJoinRequest (s : Streams) (params : Params) : Turn :=
  let clid := clientOf params "clid"
  match s.published.get? ((params.get? (.of "id")).getD []) with
  | none => (s, [])
  | some p =>
    if clid = 0 then (s, [])
    else if params.get? (.of "is_remove") = some (.of "1") then (s, viewerGone p clid)
    else s.requestViewer p clid ((params.get? (.of "msg")).getD [])

/-- A view is made of an answer.  What came before it waits in its emitter, which has no
listener yet. -/
def openView (s : Streams) (w : WatchID) : Streams :=
  let watch := s.watches w
  let q := s.nextPeer
  ({ s with nextPeer := q + 1 }.modifyPeer q fun _ =>
    { streamId := watch.id
      clientId := watch.streamer
      owner := .view w
      emitted := watch.early.map PeerEvent.signal }).modifyWatch w fun watch =>
    { watch with view := some q, early := [], settled := watch.settled.settle (.resolved q) }

def onRespond (s : Streams) (params : Params) : Streams :=
  let id := (params.get? (.of "id")).getD []
  match s.watching.get? id with
  | none => s
  | some w =>
    if (s.watches w).view.isSome then s
    else
      let gone := { s with watching := s.watching.delete id }
      if params.get? (.of "decision") ≠ some (.of "1") then gone.rejectSettled w .denied
      else if (params.get? (.of "offer")).getD [] = [] then
        (gone.rejectSettled w .noOffer).bestEffort
          (.joinstreamrequest id (s.watches w).streamer true)
      else s.openView w

/-- What comes before the answer to a request: the oldest goes past the bound. -/
def keepEarly (s : Streams) (w : WatchID) (json : Str) : Turn :=
  let watch := s.watches w
  let early := watch.early ++ [json]
  if early.length > maxEarlySignals then
    let s := s.modifyWatch w fun watch => { watch with early := early.tail, overflowed := true }
    if watch.overflowed then (s, []) else (s.emit .error, [.listen])
  else (s.modifyWatch w fun watch => { watch with early }, [])

/-- Signalling for a stream that is not published here, or from no viewer of it. -/
def signalView (s : Streams) (id json : Str) : Turn :=
  match s.watching.get? id with
  | some w =>
    match (s.watches w).view with
    | some q => s.deliver q json
    | none => s.keepEarly w json
  | none => if id ∈ s.closedViews then (s, []) else (s.emit .error, [.listen])

def onSignaling (s : Streams) (params : Params) : Turn :=
  let id := (params.get? (.of "id")).getD []
  let clid := clientOf params "clid"
  let json := (params.get? (.of "json")).getD []
  match s.published.get? id with
  | none => s.signalView id json
  | some p =>
    match (s.pubs p).peers.get? clid with
    | some q => s.deliver q json
    | none => if clid ∈ (s.pubs p).closedViewers then (s, []) else s.signalView id json

def onClientJoined (s : Streams) (params : Params) : Turn :=
  let clid := clientOf params "clid"
  match s.infos.get? ((params.get? (.of "id")).getD []) with
  | none => (s, [])
  | some info =>
    if clid = 0 then (s, []) else (s.emit (.viewerJoined info clid), [.listen])

def onClientLeft (s : Streams) (params : Params) : Turn :=
  let id := (params.get? (.of "id")).getD []
  let clid := clientOf params "clid"
  if clid = 0 then (s, [])
  else
    (s, ((s.published.get? id).map fun p => viewerGone p clid).getD [] ++
      [.viewLeft id clid, .viewerLeft id clid])

def viewLeft (s : Streams) (id : Str) (clid : ClientID) : Turn :=
  match (s.watching.get? id).bind fun w => (s.watches w).view with
  | none => (s, [])
  | some q => if clid = s.self then (s, [.endPeer q { cause := .left }]) else (s, [])

def viewerLeft (s : Streams) (id : Str) (clid : ClientID) : Turn :=
  match s.infos.get? id with
  | none => (s, [])
  | some info => (s.emit (.viewerLeft info clid), [.listen])

def onStopped (s : Streams) (params : Params) : Turn :=
  let id := (params.get? (.of "id")).getD []
  if id = [] then (s, [])
  else
    let ended := (s.emit (.stopReported id)).endStream id .server (reasonOf params)
    (ended.1, ended.2 ++ [.unorphan id])

/-- `#onNotification`. -/
def onNotification (s : Streams) (name : Str) (params : Params) : Turn :=
  if name = .of "notifystreamstarted" then s.onInfo params
  else if name = .of "notifystreaminfo" then s.onInfo params
  else if name = .of "notifyjoinstreamrequest" then s.onJoinRequest params
  else if name = .of "notifyrespondjoinstreamrequest" then (s.onRespond params, [])
  else if name = .of "notifystreamsignaling" then s.onSignaling params
  else if name = .of "notifystreamclientjoined" then s.onClientJoined params
  else if name = .of "notifystreamclientleft" then s.onClientLeft params
  else if name = .of "notifystreamstopped" then s.onStopped params
  else (s, [])

/-! ### What goes on from an answer -/

/-- A lookup is answered. -/
def identified (s : Streams) (sl : SlotID) (identity : Identity) : Turn :=
  if (s.slots sl).looking then
    (s.modifySlot sl fun slot => { slot with looking := false, identity := some identity },
      [.advance (s.slots sl).stream])
  else (s, [])

/-- A failure that nobody awaits; that the stream or the connection is gone is none. -/
def report (s : Streams) (failure : Failure) : Turn :=
  if failure.sent = .streamEnded ∨ failure = .notConnected then (s, [])
  else (s.emit .error, [.listen])

def answered (s : Streams) (job : Job) (result : Except Failure Unit) : Turn :=
  if job ∉ s.jobs then (s, [])
  else
    let s := { s with jobs := s.jobs.erase job }
    match job, result with
    | .accept _ _, .ok _ => (s, [])
    | .accept r q, .error _ =>
      (s.modifyRequest r fun request => { request with state := .failed },
        [.endPeer q { cause := .closed }])
    | .deny r, .ok _ => (s.rememberViewer (s.requests r).identity, [])
    | .deny r, .error _ =>
      (s.modifyRequest r fun request => { request with state := .failed }, [])
    | .stop p reason, .ok _ => s.endStream (s.pubs p).id .stopped reason
    | .stop p reason, .error failure =>
      if failure.sent = .streamEnded then s.endStream (s.pubs p).id .stopped reason else (s, [])
    | .goodbye, .ok _ => (s, [])
    | .goodbye, .error failure => s.report failure
    | .discover _, .ok _ => (s, [])
    | .discover clid, .error failure =>
      if failure = .notConnected then ({ s with asked := s.asked.erase clid }, [])
      else ({ s with asked := s.asked.erase clid }.emit .error, [.listen])

end Streams

/-! ### The program -/

/-- What the application, or its timers and signals, may do at any time; of what the
client shows, its status, its server and its view may change so. -/
inductive Call
  | publish
  | giveUp (k : CallID) (failure : Failure)
  | watch (target : Str ⊕ StreamInfo) (aborted : Bool)
  | giveUpWatch (w : WatchID) (failure : Failure)
  | stop (p : PubID) (reason : Nat)
  | close (q : PeerID)
  | accept (r : RequestID) (offer : Str) (fits : Bool)
  | deny (r : RequestID) (fits : Bool)
  | dispose
  | onSent (w : WatchID)
  | client (connected supported : Bool) (view : ClientID → Option Identity)

/-- What starts a turn of its own: an event of the client, an answer, a timer, or a
promise that is heard. -/
inductive Event
  | notification (name : Str) (params : Params)
  | clientEnter (clid : ClientID) (isStreaming : Option Bool)
  | clientUpdated (clid : ClientID) (isStreaming : Option Bool)
  | clientLeave (clid : ClientID)
  | disconnected
  | gone (clid : ClientID)
  | setup (k : CallID) (result : Except Failure (List Params))
  | joined (w : WatchID) (result : Except Failure Unit)
  | identified (sl : SlotID) (identity : Identity)
  | answered (job : Job) (result : Except Failure Unit)
  | heard (k : CallID)
  | noted (k : CallID)
  | heardWatch (w : WatchID)
  | caught (w : WatchID)

namespace Streams

/-- What has not been made yet cannot be called. -/
def call : Call → Streams → Turn
  | .publish, s => (s.publish, [])
  | .giveUp k failure, s => if k < s.nextCall then (s.giveUp k failure, []) else (s, [])
  | .watch target aborted, s => (s.watch target aborted, [])
  | .giveUpWatch w failure, s => (s.giveUpWatch w failure, [])
  | .stop p reason, s => if p < s.nextPub then (s.stop p reason, []) else (s, [])
  | .close q, s => if q < s.nextPeer then s.closePeer q else (s, [])
  | .accept r offer fits, s => if r < s.nextRequest then s.accept r offer fits else (s, [])
  | .deny r fits, s => if r < s.nextRequest then (s.deny r fits, []) else (s, [])
  | .dispose, s => s.dispose
  | .onSent w, s => (s.onSent w, [])
  | .client connected supported view, s => ({ s with connected, supported, view }, [])

/-- Of what the client delivers nothing is heard once its listeners are gone. -/
def subscribed (s : Streams) (turn : Turn) : Turn := if s.disposed then (s, []) else turn

def event : Event → Streams → Turn
  | .notification name params, s => s.subscribed (s.onNotification name params)
  | .clientEnter clid isStreaming, s => s.subscribed (s.streaming clid isStreaming, [])
  | .clientUpdated clid isStreaming, s => s.subscribed (s.streaming clid isStreaming, [])
  | .clientLeave clid, s =>
    s.subscribed ({ s with asked := s.asked.erase clid },
      [.leaveStreams clid (s.published.entries.map Prod.snd)])
  | .disconnected, s => s.subscribed s.disconnected
  | .gone clid, s => s.gone clid
  | .setup k result, s => s.setup k result
  | .joined w result, s => (s.joined w result, [])
  | .identified sl identity, s => s.identified sl identity
  | .answered job result, s => s.answered job result
  | .heard k, s => (s.heard k, [])
  | .noted k, s => (s.noted k, [])
  | .heardWatch w, s => (s.heardWatch w, [])
  | .caught w, s => s.caught w

def exec : Op → Streams → Turn
  | .listen, s => (s, [])
  | .adopted k info, s => (s.adopted k info, [])
  | .orphaned k id, s => (s.orphaned k id, [])
  | .endWatch id info cause reason, s => s.endWatch id info cause reason
  | .stoppedEvent info cause reason, s => s.stoppedEvent info cause reason
  | .finish p ended, s => s.finish p ended
  | .closeRequests p rs ended, s => s.closeRequests p ended rs
  | .endPeers p qs ended, s => s.endPeers p ended qs
  | .endPeer q closed, s => s.endPeer q closed
  | .leave q, s => (s.leave q, [])
  | .forgetDenied, s => ({ s with denied := [] }, [])
  | .closeWatch w gone cause, s => s.closeWatch w gone cause
  | .forgetClosedViews, s => ({ s with closedViews := [] }, [])
  | .endGone clid ids, s => s.endGone clid ids
  | .leaveStreams clid ps, s => s.leaveStreams clid ps
  | .dropPending p clid, s => s.dropPending p clid
  | .dropRequest p clid, s => s.dropRequest p clid
  | .deletePending p clid, s => (s.deletePending p clid, [])
  | .advance p, s => s.advance p
  | .announce p, s => s.announce p
  | .endViewer p clid, s => s.endViewer p clid
  | .viewLeft id clid, s => s.viewLeft id clid
  | .viewerLeft id clid, s => s.viewerLeft id clid
  | .unorphan id, s => ({ s with orphans := s.orphans.erase id }, [])
  | .accepting r, s => (s.accepting r, [])
  | .rejectWatch w failure, s => (s.answerWatch w (.error failure), [])

end Streams

def program : Program Streams Op Call Event where
  event := Streams.event
  call := Streams.call
  exec := Streams.exec
  listens
    | .listen => true
    | _ => false

/-- The Streams of a client, whose clients in view that stream are asked for them. -/
def Streams.new (rememberDenied connected supported : Bool) (self : ClientID)
    (view : ClientID → Option Identity) (streaming : List ClientID) : Streams :=
  let s : Streams := { rememberDenied, connected, supported, self, view }
  if connected then streaming.foldl Streams.discover s else s

end Teamspeak.Stream
