import Teamspeak.Query.Answers

/-!
# The query client's connection

`query/client.ts`: `connect`, `disconnect`, the setup of a session, the commands in
line, and what transports report.  The client runs alone between two awaits, so a run is
a list of the moments at which something it awaited comes, or a caller calls, or a
transport reports.  Where an attempt stands is its `Stage`.

* `setupCommands`: what an attempt asks once its transport is open.
* `Client`, `Event`, `step`

What the answers say of the server (its version, the client's own id, the clients on
it) decides nothing here.  Which drops are retried, and when, is for the run to say.
-/

namespace Teamspeak.Query

/-! ### Options -/

inductive Kind
  | tcp
  | ssh
  | web
  | custom
  deriving DecidableEq

structure Login where
  name : Str
  password : Str

/-- The virtual server to select; an id by the text that `String` gives of it. -/
inductive ServerChoice
  | id (text : Str)
  | port (n : Nat)

inductive EventCategory
  | server
  | channel
  | textServer
  | textChannel
  | textPrivate
  | bans
  | tokenUsed
  deriving DecidableEq

def EventCategory.text : EventCategory → Str
  | .server => .of "server"
  | .channel => .of "channel"
  | .textServer => .of "textserver"
  | .textChannel => .of "textchannel"
  | .textPrivate => .of "textprivate"
  | .bans => .of "bans"
  | .tokenUsed => .of "tokenused"

structure Options where
  kind : Kind
  /-- Of the `tcp` transport. -/
  login : Option Login := none
  server : Option ServerChoice := none
  nickname : Option Str := none
  events : Option { categories : List EventCategory // categories ≠ [] } := none
  /-- Whether there is a `reconnect` policy. -/
  reconnect : Bool := false

def Options.eventCategories (options : Options) : List EventCategory :=
  options.events.elim [] Subtype.val

/-! ### The setup of a session -/

/-- A command of the setup, and whether the setup goes on without its answer. -/
structure SetupCommand where
  line : Str
  swallowed : Bool := false
  deriving DecidableEq

def loginCommand (login : Login) : SetupCommand where
  line :=
    buildCommandOrdered (.of "login")
      [(.of "client_login_name", login.name), (.of "client_login_password", login.password)]

/-- `#select`. -/
def useCommand (server : ServerChoice) (nickname : Option Str) : SetupCommand where
  line :=
    buildCommandOrdered (.of "use")
      ((match server with
        | .id text => (.of "sid", text)
        | .port n => (.of "port", .ofNat n)) ::
        (nickname.map (Str.of "client_nickname", ·)).toList)

/-- `#register`. -/
def registerCommand (category : EventCategory) : SetupCommand where
  line :=
    buildCommandOrdered (.of "servernotifyregister")
      ((.of "event", category.text) ::
        if category = .channel then [(.of "id", .of "0")] else [])

/-- `#registerEvents`; its last is `#learnClients`, whose failure is only logged. -/
def registerEvents (categories : List EventCategory) : List SetupCommand :=
  categories.map registerCommand ++
    if categories = [] then []
    else [{ line := .of "clientlist -uid -groups -away -voice", swallowed := true }]

/-- What `#establishSession` asks over a transport that delivers `notifications` or not. -/
def setupCommands (options : Options) (notifications : Bool) : List SetupCommand :=
  (if options.kind = .tcp then (options.login.map loginCommand).toList else []) ++
    (options.server.map (useCommand · options.nickname)).toList ++
    [{ line := .of "version" }, { line := .of "whoami" }] ++
    if notifications ∧ options.server.isSome then registerEvents options.eventCategories else []

/-- Where an attempt stands. -/
inductive Stage
  /-- There is none, or it has resolved or rejected. -/
  | finished
  | opening
  /-- Closing the transport it opened, which it does not install. -/
  | discarding (cause : Cause)
  /-- About to go on with the setup. -/
  | setup (rest : List SetupCommand)
  | awaiting (call : Nat) (swallowed : Bool) (rest : List SetupCommand)
  /-- About to fail. -/
  | failed (cause : Cause)
  deriving DecidableEq

/-- What an attempt makes of a call that has settled. -/
def Stage.hear (call : Nat) (result : Result) : Stage → Stage
  | .awaiting own swallowed rest =>
    if own = call then
      match result with
      | .ok _ => .setup rest
      | .error cause => if swallowed then .setup rest else .failed cause
    else .awaiting own swallowed rest
  | stage => stage

/-! ### The client -/

inductive Status
  | disconnected
  | connecting
  | connected
  deriving DecidableEq

structure Call where
  id : Nat
  line : Str
  deriving DecidableEq

/-- What a run shows; an attempt, and the session it sets up, by its generation. -/
inductive Output
  | connected (attempt : Nat) (transport : Option TransportID)
  | disconnected (attempt : Nat)
  | settled (call : Nat) (result : Result)
  | wrote (transport : TransportID) (line : Str)
  | notification (cmd : Command)
  deriving DecidableEq

/-- Where the client is in its connection's life, and what has become of its transports. -/
structure Connection where
  status : Status := .disconnected
  transport : Option TransportID := none
  closed : Bool := true
  generation : Nat := 0
  /-- The session that `disconnect` is tearing down. -/
  stopping : Option Nat := none
  stopped : Bool := false
  reconnecting : Bool := false
  /-- The attempt the reconnect loop waits for. -/
  loopWaits : Option Nat := none
  nextTransport : Nat := 0
  /-- The transports whose `onLine` and `onClose` are the client's. -/
  wired : List TransportID := []
  /-- Those whose `close` has been called. -/
  closing : List TransportID := []
  /-- Those that have ended. -/
  ended : List TransportID := []
  deriving DecidableEq

structure Client extends Connection where
  answers : Answers := {}
  /-- The calls whose turn has not come. -/
  queue : List Call := []
  running : Option Call := none
  nextCall : Nat := 0
  /-- The writes under way of commands that were given up on. -/
  unsent : List TransportID := []
  attempts : Nat → Stage := fun _ => .finished
  trace : List Output := []

namespace Client

variable (options : Options) (s : Client)

def setStage (k : Nat) (stage : Stage) : Client :=
  { s with attempts := fun j => if j = k then stage else s.attempts j }

@[simp] theorem attempts_setStage (k : Nat) (stage : Stage) (j : Nat) :
    (s.setStage k stage).attempts j = if j = k then stage else s.attempts j := rfl

def settle (call : Nat) (result : Result) : Client :=
  { s with
    attempts := fun k => (s.attempts k).hear call result
    trace := s.trace ++ [.settled call result] }

/-- `transport.close()`; that of a `web` transport ends it at once. -/
def closeTransport (t : TransportID) : Client :=
  { s with
    closing := t :: s.closing
    ended := if options.kind = .web then t :: s.ended else s.ended }

/-- `#announceDisconnected`. -/
def announceDisconnected (attempt : Nat) : Client :=
  { s with trace := s.trace ++ [.disconnected attempt] }

/-- `#fail`: the command that is running rejects. -/
def fail : Client :=
  match s.running with
  | none => { s with answers := { s.answers with pending := none } }
  | some call =>
    { s with answers := { s.answers with pending := none }, running := none }.settle call.id
      (.error .notConnected)

/-- `#handleClose`. -/
def handleClose : Client :=
  if s.status = .disconnected then s
  else
    let down := { s with transport := none, closed := true, status := .disconnected }.fail
    if s.status = .connected then
      { down.announceDisconnected s.generation with
        reconnecting := s.reconnecting || (options.reconnect && !s.stopped) }
    else down

/-- `#failConnection`, of attempt `k`. -/
def failConnection (k : Nat) : Client :=
  if s.status = .connected then s
  else
    let down := { s with transport := none, closed := true, status := .disconnected }.fail
    let down := s.transport.elim down (down.closeTransport options)
    if s.reconnecting then down.announceDisconnected k else down

/-! ### Connecting and disconnecting -/

/-- `#connect`, once what it waits for at first has come. -/
def connect : Client :=
  if s.stopping = none ∧ s.status = .disconnected then
    { s with stopped := false, generation := s.generation + 1, status := .connecting }.setStage
      (s.generation + 1) .opening
  else s

def loopIdle : Bool := s.loopWaits.elim true fun k => s.attempts k = .finished

/-- The reconnect loop makes an attempt. -/
def retry : Client :=
  if s.reconnecting ∧ s.stopped = false ∧ s.loopIdle ∧ s.stopping = none ∧
      s.status = .disconnected then
    { s.connect with loopWaits := some (s.generation + 1) }
  else s

def loopEnds : Client :=
  if s.reconnecting ∧ s.loopIdle then { s with reconnecting := false, loopWaits := none }
  else s

/-- `disconnect`, up to where it waits for the transport to close. -/
def disconnect : Client :=
  let told := { s with stopped := true, generation := s.generation + 1 }
  if s.stopping ≠ none ∨ s.status = .disconnected then told
  else
    let down :=
      { told with
        status := .disconnected, stopping := some s.generation, transport := none,
        closed := true }.fail
    s.transport.elim down (down.closeTransport options)

/-- The transport that `disconnect` waits for has closed. -/
def tornDown : Client :=
  match s.stopping with
  | none => s
  | some k => { s with stopping := none }.announceDisconnected k

/-! ### An attempt -/

/-- The transport of attempt `k` is open; one that is not `alive` has ended already. -/
def opened (k : Nat) (notifications alive : Bool) : Client :=
  if s.attempts k = .opening then
    let t := s.nextTransport
    let s :=
      { s with nextTransport := t + 1, ended := if alive then s.ended else t :: s.ended }
    if k ≠ s.generation ∨ s.status ≠ .connecting then
      (s.closeTransport options t).setStage k (.discarding .notConnected)
    else if notifications = false ∧ options.events.isSome then
      (s.closeTransport options t).setStage k (.discarding .eventsUnsupported)
    else
      { s with transport := some t, closed := false, answers := {}, wired := t :: s.wired }.setStage
        k (.setup (setupCommands options notifications))
  else s

def openFails (k : Nat) : Client :=
  if s.attempts k = .opening then s.setStage k (.failed .openFailed) else s

/-- The transport that attempt `k` did not install has closed. -/
def discarded (k : Nat) : Client :=
  match s.attempts k with
  | .discarding cause => s.setStage k (.failed cause)
  | _ => s

def exec (line : Str) : Client :=
  { s with queue := s.queue ++ [⟨s.nextCall, line⟩], nextCall := s.nextCall + 1 }

/-- Attempt `k` goes on with its setup, and with the last of it `#connect` ends. -/
def goesOn (k : Nat) : Client :=
  match s.attempts k with
  | .setup (cmd :: rest) =>
    (s.exec cmd.line).setStage k (.awaiting s.nextCall cmd.swallowed rest)
  | .setup [] =>
    if k = s.generation then
      { s with
        status := .connected, trace := s.trace ++ [Output.connected k s.transport] }.setStage k .finished
    else s.setStage k .finished
  | _ => s

def fails (k : Nat) : Client :=
  match s.attempts k with
  | .failed _ => (s.failConnection options k).setStage k .finished
  | _ => s

/-! ### The commands in line -/

/-- The first in line gets its turn (`#execNow`), unless its caller gave it up. -/
def turn (aborted : Bool) : Client :=
  match s.running, s.queue with
  | none, call :: queue =>
    if aborted then { s with queue }.settle call.id (.error .gaveUp)
    else if s.closed ∨ s.transport = none then
      { s with queue }.settle call.id (.error .notConnected)
    else { s with queue, running := some call }
  | _, _ => s

/-- The command whose turn it is is written (`#execOnce`), the line middleware having
held it for as long as it likes.  A transport that has ended refuses it. -/
def write : Client :=
  match s.running, s.answers.pending with
  | some call, none =>
    match s.transport with
    | none => { s with running := none }.settle call.id (.error .notConnected)
    | some t =>
      if s.closed then { s with running := none }.settle call.id (.error .notConnected)
      else if t ∈ s.ended then { s with running := none }.settle call.id (.error .sendFailed)
      else
        { s with
          answers :=
            { s.answers with
              pending := some
                { call := call.id
                  transport := t
                  command := ((parseCommand call.line).map Command.name).getD [] } }
          trace := s.trace ++ [.wrote t call.line] }
  | _, _ => s

def sendFails : Client :=
  match s.answers.pending with
  | none => s
  | some pending =>
    { s with answers := { s.answers with pending := none }, running := none }.settle pending.call
      (.error .sendFailed)

/-- The command that is running times out, or its caller gives it up.  `sending` says
that its write is still under way. -/
def gaveUp (sending : Bool) : Client :=
  match s.running with
  | none => s
  | some call =>
    let s :=
      match s.answers.pending with
      | none => s
      | some pending =>
        if pending.held.isSome then { s with answers := { s.answers with pending := none } }
        else
          { s with
            answers :=
              { s.answers with pending := none, abandoned := s.answers.abandoned + 1 }
            unsent := if sending then pending.transport :: s.unsent else s.unsent }
    { s with running := none }.settle call.id (.error .gaveUp)

/-- The write of a command that was given up on fails after all. -/
def lateSendFails (t : TransportID) : Client :=
  if t ∈ s.unsent then
    { s with
      answers := { s.answers with abandoned := s.answers.abandoned - 1 }
      unsent := s.unsent.erase t }
  else s

/-- What a line, or a timer, leaves. -/
def take (r : Reading) : Client :=
  let s :=
    { s with answers := r.answers, trace := s.trace ++ r.notifications.map .notification }
  match r.settled with
  | none => s
  | some (call, result) => { s with running := none }.settle call result

/-- Whether `t` can still deliver a line: the client's own transports stop when they are
closed. -/
def delivers (t : TransportID) : Bool :=
  t ∈ s.wired ∧ t ∉ s.ended ∧ (t ∈ s.closing → options.kind = .custom)

variable (integerOf : Str → Option Int)

def line (t : TransportID) (text : Str) : Client :=
  if s.delivers options t then
    s.take (handleLine integerOf (options.kind = .web) s.answers text)
  else s

/-- Transport `t` ends, of itself or because it was closed. -/
def closes (t : TransportID) : Client :=
  if t < s.nextTransport ∧ t ∉ s.ended then
    let s := { s with ended := t :: s.ended }
    if t ∈ s.wired then s.handleClose options else s
  else s

end Client

/-! ### Runs -/

inductive Event
  | connect
  | disconnect
  | tornDown
  | retry
  | loopEnds
  | opened (k : Nat) (notifications alive : Bool)
  | openFails (k : Nat)
  | discarded (k : Nat)
  | goesOn (k : Nat)
  | fails (k : Nat)
  | exec (line : Str)
  | turn (aborted : Bool)
  | write
  | sendFails
  | gaveUp (sending : Bool)
  | lateSendFails (t : TransportID)
  | graceEnds
  | line (t : TransportID) (text : Str)
  | closes (t : TransportID)
  deriving DecidableEq

/-- One event; one that cannot come in `s` changes nothing. -/
def step (integerOf : Str → Option Int) (options : Options) (s : Client) : Event → Client
  | .connect => s.connect
  | .disconnect => s.disconnect options
  | .tornDown => s.tornDown
  | .retry => s.retry
  | .loopEnds => s.loopEnds
  | .opened k notifications alive => s.opened options k notifications alive
  | .openFails k => s.openFails k
  | .discarded k => s.discarded k
  | .goesOn k => s.goesOn k
  | .fails k => s.fails options k
  | .exec line => s.exec line
  | .turn aborted => s.turn aborted
  | .write => s.write
  | .sendFails => s.sendFails
  | .gaveUp sending => s.gaveUp sending
  | .lateSendFails t => s.lateSendFails t
  | .graceEnds => s.take (graceEnds s.answers)
  | .line t text => s.line options integerOf t text
  | .closes t => s.closes options t

end Teamspeak.Query
