import Teamspeak.Client.Deliveries
import Teamspeak.Core.Reconnect
import Teamspeak.Lib.Run

/-!
# The connection of the voice client

`client.ts`, as far as it connects, leaves, loses its connection and connects again: the
calls of `connect()` as they go from one `await` to the next, `disconnect()` and its goodbye,
what the server's lines and the socket do to an attempt and to a session, the loop that
reconnects, the queue of deliveries, and the lines of callers on their way through the line
middleware.

What runs up to the next `await` is one step, and steps come in any order that their
promises, timers, packets and callers allow: what a promise wakes may come at any later time.
Trace hooks, the listeners of signals and `shouldRetry` do not call the client from within a
step; listeners of events and everything else do so between steps.

What `#resetForConnect` makes anew, the attempt, the handler with its keys and the signal
`#down`, is a `Link`, and links are numbered.  Some fields are no state of the code: `trace`,
`clock`, and the numbers that say which link a delivery or a line is of.
-/

namespace Teamspeak.Client

/-- The errors that the client makes. -/
inductive Made
  | notConnected
  | alreadyConnected
  | invalidAddress
  | server (code : Nat)
  | handshake
  | removed (reason : Nat)
  /-- the connection closed before the handshake completed -/
  | closedEarly
  | closed
  /-- `TeamspeakError(String(v), { cause: v })` -/
  | wrapped (v : Nat)
  deriving DecidableEq

/-- What fails a connection or a call.  The client's own errors are told apart by the step
that makes them. -/
inductive ClientError
  | made (error : Made) (clock : Nat)
  /-- an error of the socket, the lookup or a signal -/
  | other (n : Nat)
  /-- what is no `Error` -/
  | value (v : Nat)
  deriving DecidableEq

namespace ClientError

/-- `error instanceof Error ? error : new TeamspeakError(...)`. -/
def asError (clock : Nat) : ClientError → ClientError
  | value v => made (.wrapped v) clock
  | e => e

/-- What `ViewStore.end` is given. -/
def cause : ClientError → Cause ClientError
  | value v => .value (value v)
  | e => .error e

/-- `error instanceof AlreadyConnectedError`. -/
def isAlreadyConnected : ClientError → Bool
  | made .alreadyConnected _ => true
  | _ => false

end ClientError

abbrev LinkID := Nat
abbrev ConnectID := Nat
abbrev LineID := Nat

/-- What `#resetForConnect` makes anew, and what became of it. -/
structure Link where
  /-- `attempt.trace` and `attempt.onFail` are set. -/
  traced : Bool := false
  number : Nat := 0
  reconnect : Bool := false
  settled : Bool := false
  /-- What the promise of the attempt has come to. -/
  promise : Option (Except ClientError Unit) := none
  /-- The handler has a socket. -/
  opened : Bool := false
  closed : Bool := false
  cryptoInitComplete : Bool := false
  /-- `#down` has aborted. -/
  down : Bool := false

/-- `handler.isOpen`. -/
def Link.isOpen (link : Link) : Bool := link.opened && !link.closed

/-- Where a call of `connect()` waits. -/
inductive Waiting
  /-- for a `disconnect()` that says goodbye -/
  | leaving (disconnects leave : Nat)
  /-- for a `disconnected` to be delivered -/
  | delivered (disconnects announcement : Nat)
  | resolving
  | opening
  /-- for the promise of its attempt -/
  | settling
  | done (result : Except ClientError Unit)
  deriving DecidableEq

structure Connecting where
  number : Nat := 1
  reconnect : Bool := false
  /-- It was given a signal. -/
  signal : Bool := false
  link : LinkID := 0
  /-- It listens to its signal. -/
  listening : Bool := false
  waiting : Waiting := .done (.ok ())

/-- A `#leave` that is not through. -/
structure Leaving where
  id : Nat
  link : LinkID
  /-- It waits for the goodbye to be answered, or else for its `disconnected` to be
  delivered. -/
  goodbye : Bool
  announcement : Nat
  deriving DecidableEq

/-- What is queued for the listeners. -/
inductive Queued
  | serverEvent (link : LinkID)
  | connected (link : LinkID) (reconnected : Bool)
  | kicked
  | disconnected (link : LinkID) (cause : Option ClientError) (willReconnect : Bool)
  | viewReady
  deriving DecidableEq

def Queued.isDisconnected : Queued → Bool
  | disconnected _ _ _ => true
  | _ => false

/-- A line of a caller on its way through the line middleware. -/
structure InFlight where
  /-- The link whose `#down` its call listens to. -/
  link : LinkID := 0
  /-- The signal the middleware was given has aborted. -/
  aborted : Bool := false
  /-- Its call has returned, and listens to nothing any more. -/
  returned : Bool := false

/-- `options.reconnect`: `shouldRetry` may answer by what came before, and may throw. -/
structure ReconnectOptions where
  policy : BackoffPolicy := defaultBackoffPolicy
  shouldRetry : ClientError → Nat → Nat → Option Bool

structure RetryAnswer where
  err : ClientError
  attempt : Nat
  retry : Bool
  deriving DecidableEq

/-- What `#scheduleReconnect` waits for: its delay, or its `connect()`. -/
structure Loop where
  attempt : Nat
  call : Option ConnectID
  deriving DecidableEq

/-- What a run shows: the hooks of attempts and sessions, what is queued for the listeners
and what is delivered, what the reconnect policy is asked, the attempts of the loop, and the
lines: those that are taken, and those that are written, whether under the public key. -/
inductive Shown
  | attemptFailed (link : LinkID)
  | sessionStart (link : LinkID)
  | sessionEnd (link : LinkID) (cause : Cause ClientError)
  | queued (delivery : Queued)
  | delivered (delivery : Queued)
  | asked (err : ClientError) (attempt : Nat)
  | retried (link : LinkID)
  | issued (line : LineID) (link : LinkID)
  | wrote (line : LineID) (link : LinkID) (dummy : Bool)
  | goodbye (link : LinkID) (dummy : Bool)
  deriving DecidableEq

structure Lifecycle where
  reconnect : Option ReconnectOptions := none
  /-- `parseConnectAddress` takes the address. -/
  addressable : Bool := true
  status : ClientStatus := .disconnected
  links : LinkID → Link := fun _ => {}
  /-- The link of `#attempt`, `#handler`, `#crypt` and `#down`. -/
  link : LinkID := 0
  view : ViewStore ClientError := .new
  /-- The link of `#session`. -/
  session : Option LinkID := none
  stopped : Bool := false
  disconnects : Nat := 0
  leaving : Option Leaving := none
  /-- How many `disconnected` were announced. -/
  announced : Nat := 0
  disconnectedDelivered : Option Nat := none
  queue : List Queued := []
  /-- A listener of `notification`, or event middleware. -/
  raw : Bool := false
  connects : ConnectID → Connecting := fun _ => {}
  nextConnect : ConnectID := 0
  lines : LineID → InFlight := fun _ => {}
  nextLine : LineID := 0
  loop : Option Loop := none
  loopAttempt : Nat := 0
  retryAnswer : Option RetryAnswer := none
  lastDrop : Option ClientError := none
  /-- How many steps there were. -/
  clock : Nat := 0
  trace : List Shown := []

namespace Lifecycle

/-- `new Client`. -/
def new (reconnect : Option ReconnectOptions) (addressable : Bool) : Lifecycle :=
  { reconnect, addressable }

/-! ### Writing -/

def modifyLink (c : Lifecycle) (a : LinkID) (f : Link → Link) : Lifecycle :=
  { c with links := fun b => if b = a then f (c.links a) else c.links b }

def modifyConnect (c : Lifecycle) (k : ConnectID) (f : Connecting → Connecting) : Lifecycle :=
  { c with connects := fun j => if j = k then f (c.connects k) else c.connects j }

def modifyLine (c : Lifecycle) (n : LineID) (f : InFlight → InFlight) : Lifecycle :=
  { c with lines := fun m => if m = n then f (c.lines n) else c.lines m }

@[simp] theorem links_modifyLink (c : Lifecycle) (a : LinkID) (f : Link → Link) (b : LinkID) :
    (c.modifyLink a f).links b = if b = a then f (c.links a) else c.links b := rfl

@[simp] theorem connects_modifyConnect (c : Lifecycle) (k : ConnectID)
    (f : Connecting → Connecting) (j : ConnectID) :
    (c.modifyConnect k f).connects j = if j = k then f (c.connects k) else c.connects j := rfl

@[simp] theorem lines_modifyLine (c : Lifecycle) (n : LineID) (f : InFlight → InFlight)
    (m : LineID) :
    (c.modifyLine n f).lines m = if m = n then f (c.lines n) else c.lines m := rfl

def tell (c : Lifecycle) (shown : Shown) : Lifecycle := { c with trace := c.trace ++ [shown] }

def enqueue (c : Lifecycle) (delivery : Queued) : Lifecycle :=
  { c with queue := c.queue ++ [delivery] }.tell (.queued delivery)

def updateView (c : Lifecycle) (op : ViewStore.Op ClientError) : Lifecycle :=
  { c with view := c.view.step op }

/-- `#handler.close()`. -/
def closeHandler (c : Lifecycle) : Lifecycle :=
  c.modifyLink c.link fun link => { link with closed := true }

/-- `#down.abort()`. -/
def abortDown (c : Lifecycle) : Lifecycle :=
  c.modifyLink c.link fun link => { link with down := true }

/-! ### Attempts -/

/-- `attempt.onFail`, and that the attempt is settled. -/
def failAttempt (c : Lifecycle) : Lifecycle :=
  let c := if (c.links c.link).traced then c.tell (.attemptFailed c.link) else c
  c.modifyLink c.link fun link => { link with settled := true }

/-- `attempt.reject`. -/
def reject (c : Lifecycle) (error : ClientError) : Lifecycle :=
  if (c.links c.link).settled then c
  else c.failAttempt.modifyLink c.link fun link => { link with promise := some (.error error) }

/-- `attempt.rejectAfter`, whose promise is rejected with the last of `#leave`. -/
def rejectAfter (c : Lifecycle) : Lifecycle :=
  if (c.links c.link).settled then c else c.failAttempt

/-- `#endSession`. -/
def endSession (c : Lifecycle) (cause : Cause ClientError) : Lifecycle :=
  let c := c.updateView (.end_ cause)
  match c.session with
  | none => c
  | some a => { c with session := none }.tell (.sessionEnd a cause)

/-- `#announceDisconnected`, of link `a`. -/
def announceDisconnected (c : Lifecycle) (a : LinkID) (cause : Option ClientError)
    (willReconnect : Bool) : Lifecycle :=
  { c with announced := c.announced + 1, disconnectedDelivered := some c.announced }.enqueue
    (.disconnected a cause willReconnect)

/-! ### Reconnecting -/

/-- `#willReconnect`. -/
def willReconnect (c : Lifecycle) (err : ClientError) (attempt : Nat) : Lifecycle × Bool :=
  match c.reconnect with
  | none => (c, false)
  | some options =>
    if c.stopped then (c, false)
    else if options.policy.maxAttempts ≠ 0 ∧ options.policy.maxAttempts < attempt then (c, false)
    else
      let answer := c.retryAnswer.filter fun answer => answer.err = err ∧ answer.attempt = attempt
      match answer with
      | some answer => (c, answer.retry)
      | none =>
        let retry := ((options.shouldRetry err attempt) c.trace.length).getD false
        ({ c with retryAnswer := some ⟨err, attempt, retry⟩ }.tell (.asked err attempt), retry)

def endLoop (c : Lifecycle) : Lifecycle := { c with loop := none, loopAttempt := 0 }

/-- The loop of `#scheduleReconnect` from the start of a round to where it sleeps. -/
def round (c : Lifecycle) (err : ClientError) (attempt : Nat) : Lifecycle :=
  match c.reconnect with
  | none => c.endLoop
  | some options =>
    if options.policy.maxAttempts ≠ 0 ∧ options.policy.maxAttempts < attempt then c.endLoop
    else if c.stopped then c.endLoop
    else
      let asked := c.willReconnect err attempt
      if asked.2 then { asked.1 with loop := some ⟨attempt, none⟩ } else asked.1.endLoop

/-- `#scheduleReconnect`. -/
def scheduleReconnect (c : Lifecycle) (err : ClientError) : Lifecycle :=
  if c.reconnect.isNone ∨ c.stopped ∨ c.loop.isSome then c else c.round err 1

/-! ### The end of an attempt and of a session -/

/-- `#failConnection`. -/
def failConnection (c : Lifecycle) (error : ClientError) : Lifecycle :=
  if c.status = .connected then c
  else
    let c := (c.reject error).updateView (.end_ error.cause)
    if c.status = .disconnected then c
    else
      let c := { c with status := .disconnected }.closeHandler
      let cause := error.asError c.clock
      let asked :=
        if c.loop.isSome then c.willReconnect cause (c.loopAttempt + 1) else (c, false)
      asked.1.announceDisconnected c.link (some cause) asked.2

/-- `#handleConnectionClosed`. -/
def handleConnectionClosed (c : Lifecycle) (err : Option ClientError) : Lifecycle :=
  if c.status = .disconnected then c
  else
    let c := c.abortDown
    if c.status ≠ .connected then c.failConnection (err.getD (.made .closedEarly c.clock))
    else
      let cause := err.getD (.made .closed c.clock)
      let c := { c with status := .disconnected, lastDrop := some cause }.endSession cause.cause
      let asked := c.willReconnect cause (c.loopAttempt + 1)
      (asked.1.announceDisconnected c.link (some cause) asked.2).scheduleReconnect cause

/-- The socket fails or closes by itself: `#triggerClose` of the handler. -/
def triggerClose (c : Lifecycle) (err : Option ClientError) : Lifecycle :=
  if (c.links c.link).isOpen then c.closeHandler.handleConnectionClosed err else c

/-- `#handleReceiveError`. -/
def handleReceiveError (c : Lifecycle) : Lifecycle :=
  if c.status = .connected then c else c.failConnection (.made .handshake c.clock)

/-- `attempt.resolve`. -/
def resolve (c : Lifecycle) : Lifecycle :=
  c.modifyLink c.link fun link =>
    if link.settled then link else { link with settled := true, promise := some (.ok ()) }

/-- `#session` is set, and the hook called. -/
def startSession (c : Lifecycle) : Lifecycle :=
  if (c.links c.link).traced then { c with session := some c.link }.tell (.sessionStart c.link)
  else c

/-- `#markConnected`. -/
def markConnected (c : Lifecycle) : Lifecycle :=
  if c.status ≠ .connecting ∨ (c.links c.link).settled then c
  else
    { c with status := .connected }.resolve.startSession.enqueue
      (.connected c.link (c.links c.link).reconnect)

/-! ### Connecting -/

/-- `#resetForConnect`. -/
def resetForConnect (c : Lifecycle) : Lifecycle :=
  let c := { c.closeHandler.abortDown with link := c.link + 1 }
  (c.modifyLink c.link fun _ => {}).updateView .reset

def finish (c : Lifecycle) (k : ConnectID) (result : Except ClientError Unit) : Lifecycle :=
  c.modifyConnect k fun call => { call with listening := false, waiting := .done result }

def await (c : Lifecycle) (k : ConnectID) (waiting : Waiting) : Lifecycle :=
  c.modifyConnect k fun call => { call with waiting }

/-- `#connect`, where the attempt of `call` begins. -/
def startAttempt (c : Lifecycle) (call : Connecting) : Lifecycle :=
  let c := { { c with stopped := false }.resetForConnect with status := .connecting }
  let c := c.modifyLink c.link fun link =>
    { link with traced := true, number := call.number, reconnect := call.reconnect }
  if call.reconnect then c.tell (.retried c.link) else c

/-- `#connect` from where it has waited for a `disconnect()`. -/
def proceed (c : Lifecycle) (k : ConnectID) (disconnects : Nat) : Lifecycle :=
  match c.disconnectedDelivered with
  | some announcement => c.await k (.delivered disconnects announcement)
  | none =>
    if c.disconnects ≠ disconnects then c.finish k (.error (.made .notConnected c.clock))
    else if c.status ≠ .disconnected then c.finish k (.error (.made .alreadyConnected c.clock))
    else if c.addressable = false then c.finish k (.error (.made .invalidAddress c.clock))
    else
      let c := c.startAttempt (c.connects k)
      c.modifyConnect k fun call =>
        { call with link := c.link, listening := call.signal, waiting := .resolving }

/-- `#connect`; a signal it is given may have aborted before. -/
def connect (c : Lifecycle) (number : Nat) (reconnect signal : Bool)
    (aborted : Option ClientError) : Lifecycle :=
  let k := c.nextConnect
  let c := { c with nextConnect := k + 1 }.modifyConnect k fun _ => { number, reconnect, signal }
  match aborted with
  | some reason => c.finish k (.error reason)
  | none =>
    match c.leaving with
    | some leaving => c.await k (.leaving c.disconnects leaving.id)
    | none => c.proceed k c.disconnects

/-- What a call of `connect()` waits for has come. -/
def woken (c : Lifecycle) (k : ConnectID) : Lifecycle :=
  match (c.connects k).waiting with
  | .leaving disconnects leave =>
    if (c.leaving.map Leaving.id) = some leave then c else c.proceed k disconnects
  | .delivered disconnects announcement =>
    if c.disconnectedDelivered = some announcement then c else c.proceed k disconnects
  | .settling =>
    match (c.links (c.connects k).link).promise with
    | none => c
    | some result => c.finish k result
  | _ => c

/-- `#resolveAddr` settles. -/
def resolved (c : Lifecycle) (k : ConnectID) (result : Except ClientError Unit) : Lifecycle :=
  match (c.connects k).waiting, result with
  | .resolving, .ok _ =>
    if (c.links (c.connects k).link).settled then c.await k .settling else c.await k .opening
  | .resolving, .error e => (c.failConnection e).await k .settling
  | _, _ => c

/-- `handler.connect` settles. -/
def opened (c : Lifecycle) (k : ConnectID) (result : Except ClientError Unit) : Lifecycle :=
  let a := (c.connects k).link
  match (c.connects k).waiting, result with
  | .opening, .ok _ =>
    if (c.links a).closed then
      (c.failConnection (.made .notConnected c.clock)).await k .settling
    else (c.modifyLink a fun link => { link with opened := true }).await k .settling
  | .opening, .error e => (c.failConnection e).await k .settling
  | _, _ => c

/-- The signal of a call of `connect()` aborts. -/
def aborts (c : Lifecycle) (k : ConnectID) (reason : ClientError) : Lifecycle :=
  match (c.connects k).waiting with
  | .leaving _ _ | .delivered _ _ =>
    if (c.connects k).signal then c.finish k (.error reason) else c
  | _ =>
    if (c.connects k).listening then
      (c.modifyConnect k fun call => { call with listening := false }).failConnection reason
    else c

/-! ### Leaving -/

/-- `#leave` after the goodbye. -/
def leave (c : Lifecycle) (id : Nat) (a : LinkID) : Lifecycle :=
  let c := c.closeHandler.endSession .disconnect
  { c.announceDisconnected a none false with leaving := some ⟨id, a, false, c.announced⟩ }

/-- What `disconnect()` does at once: whatever is under way ends. -/
def abandon (c : Lifecycle) : Lifecycle :=
  { c with status := .disconnected }.abortDown.rejectAfter

/-- `#leave` up to where it waits for the goodbye to be answered. -/
def sayGoodbye (c : Lifecycle) (aborted : Bool) : Lifecycle :=
  let link := c.links c.link
  let c :=
    if link.isOpen ∧ aborted = false then c.tell (.goodbye c.link (!link.cryptoInitComplete))
    else c
  { c with leaving := some ⟨c.disconnects, c.link, true, 0⟩ }

/-- `disconnect()`, up to where it waits; a signal it is given may have aborted before. -/
def disconnect (c : Lifecycle) (aborted : Bool) : Lifecycle :=
  let c := { c with stopped := true, disconnects := c.disconnects + 1 }
  if c.leaving.isSome ∨ c.status = .disconnected then c
  else if c.status = .connected ∨ (c.links c.link).cryptoInitComplete then
    c.abandon.sayGoodbye aborted
  else c.abandon.leave c.disconnects c.link

/-- The goodbye is answered, or is not in time. -/
def goodbyeEnded (c : Lifecycle) : Lifecycle :=
  match c.leaving with
  | some ⟨id, a, true, _⟩ => c.leave id a
  | _ => c

/-- `disconnect()` is through, and with it the attempt it interrupted. -/
def left (c : Lifecycle) : Lifecycle :=
  match c.leaving with
  | some ⟨_, a, false, announcement⟩ =>
    if c.disconnectedDelivered = some announcement then c
    else
      { c with leaving := none }.modifyLink a fun link =>
        { link with promise := link.promise.or (some (.error (.made .notConnected c.clock))) }
  | _ => c

/-! ### The lines of the server -/

/-- What a datagram has: a voice packet, or the rows of its command lines, as
`#handleCommandStr` takes them. -/
inductive Row
  /-- a voice packet that somebody listens for -/
  | voice
  /-- a step of the handshake after which the keys are there -/
  | cryptoInit
  /-- `initserver`, which may name no valid client id -/
  | initserver (params : Params) (valid : Bool)
  /-- `error`, with the error it names, if it does -/
  | error (code : Option Nat)
  | channellistfinished
  | channellist (row : Channel)
  /-- `notifyclientleftview` of this client -/
  | selfLeft (reason : Nat) (kicked : Bool) (self : Nat)
  /-- any other notification: whether it makes a server event, whether it tells of a kick, and
  what it does to the view -/
  | notification (event kicked : Bool) (ops : List (ViewStore.Op ClientError))
  /-- what is answered by a packet that cannot be written -/
  | unwritten (err : ClientError)
  /-- what throws -/
  | malformed

/-- Taken before the keys are there. -/
def Row.isPreInit : Row → Bool
  | voice | cryptoInit | error _ | unwritten _ | malformed => true
  | _ => false

def emitServerEvent (c : Lifecycle) : Lifecycle := c.enqueue (.serverEvent c.link)

/-- The `notification` event, for whoever asks for it. -/
def emitRaw (c : Lifecycle) : Lifecycle := if c.raw then c.emitServerEvent else c

def emitKicked (c : Lifecycle) (kicked : Bool) : Lifecycle :=
  if kicked then c.enqueue .kicked else c

/-- `#removedByServer`. -/
def removedByServer (c : Lifecycle) (reason : Nat) : Lifecycle :=
  (c.handleConnectionClosed (some (.made (.removed reason) c.clock))).closeHandler

def welcomeFinished (c : Lifecycle) : Lifecycle :=
  if c.status = .connected then
    match c.view.finish.2 with
    | some _ => (c.updateView .finish).enqueue .viewReady
    | none => c.updateView .finish
  else c

/-- `initserver`, up to where an invalid client id is found out. -/
def handleInitServer (c : Lifecycle) (params : Params) (valid : Bool) : Lifecycle × Bool :=
  if c.status = .connecting then
    let c := c.updateView (.seedServer params)
    if valid then (c.markConnected, true) else (c, false)
  else (c, true)

/-- One row, and whether the rows after it are handled too. -/
def handleRow (c : Lifecycle) (row : Row) : Lifecycle × Bool :=
  if (c.links c.link).cryptoInitComplete = false ∧ row.isPreInit = false then (c, true)
  else
    match row with
    | .voice => (c.emitServerEvent, true)
    | .cryptoInit => (c.modifyLink c.link fun link => { link with cryptoInitComplete := true }, true)
    | .initserver params valid => c.handleInitServer params valid
    | .error code =>
      match code with
      | none => (c, true)
      | some code => (c.failConnection (.made (.server code) c.clock), true)
    | .channellistfinished => (c.welcomeFinished, true)
    | .channellist row =>
      (if c.status = .connected then c.updateView (.collect row) else c, true)
    | .selfLeft reason kicked self =>
      let c := (c.updateView (.rosterDelete self)).emitServerEvent.emitKicked kicked
      ((c.removedByServer reason).emitRaw, true)
    | .notification event kicked ops =>
      let c := (ops.filter VoiceClient.ofServer).foldl updateView c
      (((if event then c.emitServerEvent else c).emitKicked kicked).emitRaw, true)
    | .unwritten err => (c.triggerClose (some err), true)
    | .malformed => (c, false)

/-- The rows of a datagram, up to one that throws. -/
def handleRows (c : Lifecycle) : List Row → Lifecycle
  | [] => c
  | row :: rows =>
    let handled := c.handleRow row
    if handled.2 then handled.1.handleRows rows else handled.1.handleReceiveError

/-- A datagram arrives; the handler takes it while it is open. -/
def receive (c : Lifecycle) (rows : List Row) : Lifecycle :=
  if (c.links c.link).isOpen then c.handleRows rows else c

/-! ### Deliveries -/

/-- The first of the queue is delivered. -/
def deliver (c : Lifecycle) : Lifecycle :=
  match c.queue with
  | [] => c
  | delivery :: queue => { c with queue }.tell (.delivered delivery)

/-- The promise of the last `disconnected` is through. -/
def delivered (c : Lifecycle) : Lifecycle :=
  if c.queue.any Queued.isDisconnected then c else { c with disconnectedDelivered := none }

/-! ### The loop -/

/-- The loop has slept. -/
def slept (c : Lifecycle) : Lifecycle :=
  match c.loop with
  | some ⟨attempt, none⟩ =>
    if c.stopped ∨ c.status ≠ .disconnected then c.endLoop
    else
      { { c with loopAttempt := attempt }.connect attempt true true none with
        loop := some ⟨attempt, some c.nextConnect⟩ }
  | _ => c

/-- The loop resumes, its `connect()` having returned. -/
def resumed (c : Lifecycle) : Lifecycle :=
  match c.loop with
  | some ⟨attempt, some k⟩ =>
    match (c.connects k).waiting with
    | .done (.ok _) =>
      if c.status = .connected then c.endLoop
      else c.round (c.lastDrop.getD (.made .closed c.clock)) (attempt + 1)
    | .done (.error e) =>
      if e.isAlreadyConnected then c.endLoop else c.round (e.asError c.clock) (attempt + 1)
    | _ => c
  | _ => c

/-! ### The lines of callers -/

/-- `#canSend` for what is not the goodbye. -/
def canSend (c : Lifecycle) : Bool := (c.links c.link).isOpen && c.status = .connected

/-- A caller's line is taken (`exec`, `execNoWait` and what `send` makes of a request), and
enters the line middleware. -/
def issue (c : Lifecycle) : Lifecycle :=
  if c.canSend then
    { c.modifyLine c.nextLine fun _ => { link := c.link } with
      nextLine := c.nextLine + 1 }.tell (.issued c.nextLine c.link)
  else c

/-- The caller's signal, or the timeout. -/
def cut (c : Lifecycle) (n : LineID) : Lifecycle :=
  c.modifyLine n fun line => { line with aborted := line.aborted || !line.returned }

/-- Whether the signal of a line has aborted. -/
def isAborted (c : Lifecycle) (line : InFlight) : Bool :=
  line.aborted || (!line.returned && (c.links line.link).down)

/-- The call of a line returns, as the middleware has answered or the signal has aborted. -/
def returns (c : Lifecycle) (n : LineID) : Lifecycle :=
  c.modifyLine n fun line => { line with aborted := c.isAborted line, returned := true }

/-- The middleware hands a line on, with the signal it was given: `#writeLine` and
`#writeNoWait`. -/
def handOn (c : Lifecycle) (n : LineID) : Lifecycle :=
  if n < c.nextLine ∧ c.isAborted (c.lines n) = false ∧ c.canSend then
    c.tell (.wrote n c.link !(c.links c.link).cryptoInitComplete)
  else c

/-! ### Steps -/

/-- What a reader of the view does. -/
def ofReader : ViewStore.Op ClientError → Bool
  | .whenReady | .giveUp _ | .announce | .readChannels | .readClients => true
  | _ => false

inductive Event
  | connect (signal : Bool) (aborted : Option ClientError)
  | woken (k : ConnectID)
  | resolved (k : ConnectID) (result : Except ClientError Unit)
  | opened (k : ConnectID) (result : Except ClientError Unit)
  | aborts (k : ConnectID) (reason : ClientError)
  | disconnect (aborted : Bool)
  | goodbyeEnded
  | left
  | closes (err : Option ClientError)
  | datagram (rows : List Row)
  | slept
  | resumed
  | deliver
  | delivered
  | issue
  | cut (n : LineID)
  | returns (n : LineID)
  | handOn (n : LineID)
  | read (op : ViewStore.Op ClientError)
  | listen (raw : Bool)

def happen (c : Lifecycle) : Event → Lifecycle
  | .connect signal aborted => c.connect 1 false signal aborted
  | .woken k => c.woken k
  | .resolved k result => c.resolved k result
  | .opened k result => c.opened k result
  | .aborts k reason => c.aborts k reason
  | .disconnect aborted => c.disconnect aborted
  | .goodbyeEnded => c.goodbyeEnded
  | .left => c.left
  | .closes err => c.triggerClose err
  | .datagram rows => c.receive rows
  | .slept => c.slept
  | .resumed => c.resumed
  | .deliver => c.deliver
  | .delivered => c.delivered
  | .issue => c.issue
  | .cut n => c.cut n
  | .returns n => c.returns n
  | .handOn n => c.handOn n
  | .read op => if ofReader op then c.updateView op else c
  | .listen raw => { c with raw }

def step (c : Lifecycle) (e : Event) : Lifecycle :=
  { c.happen e with clock := c.clock + 1 }

end Lifecycle

end Teamspeak.Client
