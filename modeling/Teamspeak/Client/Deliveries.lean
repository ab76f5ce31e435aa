import Teamspeak.Client.View

/-!
# The delivery queue

What `client.ts` queues for the listeners, the drain that runs it, and the announcing of
the view's revisions at a drain's end.  A delivery is named by how many were queued before
it, and `marks` keeps which ones began and ended.

A drain is one turn of the event loop: while it runs, listeners and event middleware may
call the client, and nothing else happens to it.  Packets, timers and the continuations of
promises come between drains, and promises are through before the next one begins.
-/

namespace Teamspeak.Client

inductive ClientStatus
  | disconnected
  | connecting
  | connected
  deriving DecidableEq

/-- What a delivery hands over.  Event middleware sees server events only. -/
inductive Payload (α : Type*)
  | serverEvent (event : α)
  | connected
  | kicked
  | disconnected
  | viewReady (revision : Nat)
  deriving DecidableEq

def Payload.revision? {α : Type*} : Payload α → Option Nat
  | viewReady revision => some revision
  | _ => none

structure Delivery (α : Type*) where
  id : Nat
  payload : Payload α
  deriving DecidableEq

/-- What a drain is at. -/
inductive Running (α : Type*)
  | nothing
  | delivering (delivery : Delivery α)
  | announcing (revision : Nat)
  deriving DecidableEq

inductive Mark
  | began (id : Nat)
  | ended (id : Nat)
  deriving DecidableEq

/-- The fields of `TeamspeakClient` that deliveries and the view depend on. -/
structure VoiceClient (ε α : Type*) where
  status : ClientStatus := .disconnected
  view : ViewStore ε := .new
  cryptoInitComplete : Bool := false
  /-- The attempt is settled. -/
  settled : Bool := false
  /-- The promise of the attempt is not. -/
  pending : Bool := true
  /-- A `connect()` listens to its signal. -/
  listening : Bool := false
  leaving : Bool := false
  /-- `#leave` waits for the goodbye to be answered. -/
  goodbye : Bool := false
  disconnectedDelivered : Bool := false
  queue : List (Delivery α) := []
  /-- How many deliveries were queued. -/
  queued : Nat := 0
  draining : Bool := false
  /-- How many calls of `#drain` the event loop has been given. -/
  immediates : Nat := 0
  running : Running α := .nothing
  marks : List Mark := []
  /-- The revisions that `viewReady` and `viewChanged` told, in order. -/
  announcements : List Nat := []

namespace VoiceClient

variable {ε α : Type*}

/-- `new TeamspeakClient`. -/
def new : VoiceClient ε α := {}

/-! ### The queue -/

def scheduleDrain (c : VoiceClient ε α) : VoiceClient ε α :=
  if c.draining then c else { c with draining := true, immediates := c.immediates + 1 }

def enqueue (c : VoiceClient ε α) (payload : Payload α) : VoiceClient ε α :=
  scheduleDrain
    { c with queue := c.queue ++ [⟨c.queued, payload⟩], queued := c.queued + 1 }

/-- The `finally` of `#drain`. -/
def leaveDrain (c : VoiceClient ε α) : VoiceClient ε α :=
  if c.queue = [] then { c with running := .nothing, draining := false }
  else { c with running := .nothing, immediates := c.immediates + 1 }

/-- The loop of `#drain` up to the next delivery, or the announcement after the last. -/
def nextDelivery (c : VoiceClient ε α) : VoiceClient ε α :=
  match c.queue with
  | delivery :: queue =>
    { c with
      queue
      running := .delivering delivery
      marks := c.marks ++ [.began delivery.id]
      announcements := c.announcements ++ delivery.payload.revision?.toList }
  | [] =>
    match c.view.announce.2 with
    | some revision =>
      { c with
        view := c.view.announce.1
        running := .announcing revision
        announcements := c.announcements ++ [revision] }
    | none => leaveDrain { c with view := c.view.announce.1 }

/-- `#drain` is called, once the `connect()` whose promise has settled has let go of its
signal. -/
def drain (c : VoiceClient ε α) : VoiceClient ε α :=
  match c.running with
  | .nothing =>
    if c.immediates = 0 ∨ (c.listening ∧ ¬c.pending) then c
    else nextDelivery { c with immediates := c.immediates - 1 }
  | _ => c

/-- The delivery a drain is at returns, or the listeners of `viewChanged` have been called. -/
def returned (c : VoiceClient ε α) : VoiceClient ε α :=
  match c.running with
  | .nothing => c
  | .delivering delivery => nextDelivery { c with marks := c.marks ++ [.ended delivery.id] }
  | .announcing _ => leaveDrain c

/-- Event middleware throws.  What a listener throws is caught in `#deliver`. -/
def middlewareThrew (c : VoiceClient ε α) : VoiceClient ε α :=
  match c.running with
  | .delivering ⟨id, .serverEvent _⟩ => leaveDrain { c with marks := c.marks ++ [.ended id] }
  | _ => c

/-! ### The view -/

/-- Whether the store calls `changed` in the course of an operation. -/
def notifies (view : ViewStore ε) : ViewStore.Op ε → Bool
  -- The roster is cleared before the store is loading, the rest after.
  | .reset => view.clients.size > 0 ∧ view.status ≠ .loading
  | op => (view.step op).revision ≠ view.revision ∧ (view.step op).status ≠ .loading

def updateView (c : VoiceClient ε α) (op : ViewStore.Op ε) : VoiceClient ε α :=
  if notifies c.view op then scheduleDrain { c with view := c.view.step op }
  else { c with view := c.view.step op }

/-- What the server's lines and the answers to commands do to the view at any time. -/
def ofServer : ViewStore.Op ε → Bool
  | .collect _ | .change _ | .rosterSet _ _ | .rosterDelete _ | .dropChannel _ _
  | .setServerGroups _ | .setChannelGroups _ | .seedServer _ | .patchServer _
  | .mergeServer _ => true
  | _ => false

/-- `channellistfinished`. -/
def welcomeFinished (c : VoiceClient ε α) : VoiceClient ε α :=
  if c.status = .connected then
    match c.view.finish.2 with
    | some revision => (c.updateView .finish).enqueue (.viewReady revision)
    | none => c.updateView .finish
  else c

/-! ### Connecting and leaving -/

def announceDisconnected (c : VoiceClient ε α) : VoiceClient ε α :=
  enqueue { c with disconnectedDelivered := true } .disconnected

/-- `#connect` once nothing of an earlier session is left to wait for; `signal` says whether
it was given one. -/
def connect (c : VoiceClient ε α) (signal : Bool) : VoiceClient ε α :=
  if c.leaving ∨ c.disconnectedDelivered ∨ c.status ≠ .disconnected then c
  else
    updateView
      { c with
        status := .connecting
        cryptoInitComplete := false
        settled := false
        pending := true
        listening := c.listening || signal }
      .reset

def markConnected (c : VoiceClient ε α) : VoiceClient ε α :=
  if c.status ≠ .connecting ∨ c.settled then c
  else enqueue { c with status := .connected, settled := true, pending := false } .connected

def failConnection (c : VoiceClient ε α) (cause : Cause ε) : VoiceClient ε α :=
  if c.status = .connected then c
  else
    let failed := updateView { c with settled := true, pending := c.pending && c.settled }
      (.end_ cause)
    if c.status = .disconnected then failed
    else announceDisconnected { failed with status := .disconnected }

/-- The signal of a `connect()` aborts. -/
def abort (c : VoiceClient ε α) (cause : Cause ε) : VoiceClient ε α :=
  if c.listening then c.failConnection cause else c

/-- `#handleConnectionClosed`. -/
def connectionClosed (c : VoiceClient ε α) (cause : Cause ε) : VoiceClient ε α :=
  match c.status with
  | .disconnected => c
  | .connecting => c.failConnection cause
  | .connected => announceDisconnected (updateView { c with status := .disconnected } (.end_ cause))

/-- `#leave` after the goodbye. -/
def leave (c : VoiceClient ε α) : VoiceClient ε α :=
  announceDisconnected (c.updateView (.end_ .disconnect))

def disconnect (c : VoiceClient ε α) : VoiceClient ε α :=
  if c.leaving ∨ c.status = .disconnected then c
  else
    let holdsSession := c.status = .connected ∨ c.cryptoInitComplete
    let left := { c with status := .disconnected, settled := true, leaving := true }
    if holdsSession then { left with goodbye := true } else left.leave

/-! ### Steps -/

/-- What a listener or the program can call. -/
inductive Call (ε : Type*)
  | connect (signal : Bool)
  | disconnect
  | abort (cause : Cause ε)

/-- What happens between drains. -/
inductive Happening (ε α : Type*)
  | view (op : ViewStore.Op ε)
  | serverEvent (event : α)
  | kicked
  | welcomeFinished
  | cryptoInit
  | markConnected
  | failConnection (cause : Cause ε)
  | connectionClosed (cause : Cause ε)
  /-- The goodbye is answered, or is not in time. -/
  | goodbyeEnded
  /-- `disconnect()` is through, and with it the attempt it interrupted. -/
  | left
  /-- The promise of `#disconnectedDelivered` is through. -/
  | delivered
  /-- `connect()` resumes, once the promise of its attempt has settled. -/
  | resumed

inductive ClientEvent (ε α : Type*)
  | call (call : Call ε)
  | happens (happening : Happening ε α)
  | immediate
  | returned
  | middlewareThrew

def called (c : VoiceClient ε α) : Call ε → VoiceClient ε α
  | .connect signal => c.connect signal
  | .disconnect => c.disconnect
  | .abort cause => c.abort cause

def happened (c : VoiceClient ε α) : Happening ε α → VoiceClient ε α
  | .view op => if ofServer op then c.updateView op else c
  | .serverEvent event => c.enqueue (.serverEvent event)
  | .kicked => c.enqueue .kicked
  | .welcomeFinished => c.welcomeFinished
  | .cryptoInit => { c with cryptoInitComplete := true }
  | .markConnected => c.markConnected
  | .failConnection cause => c.failConnection cause
  | .connectionClosed cause => c.connectionClosed cause
  | .goodbyeEnded => if c.goodbye then leave { c with goodbye := false } else c
  | .left =>
    if c.leaving ∧ ¬c.goodbye then { c with leaving := false, pending := c.pending && !c.settled }
    else c
  | .delivered => { c with disconnectedDelivered := false }
  | .resumed => if c.pending then c else { c with listening := false }

def step (c : VoiceClient ε α) : ClientEvent ε α → VoiceClient ε α
  | .call call => c.called call
  | .happens happening =>
    match c.running with
    | .nothing => c.happened happening
    | _ => c
  | .immediate => c.drain
  | .returned => c.returned
  | .middlewareThrew => c.middlewareThrew

end VoiceClient

end Teamspeak.Client
