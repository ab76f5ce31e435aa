import Teamspeak.Lib.Tickets
import Teamspeak.Stream.Sound

/-!
# The queue of join requests

Requests to watch a published stream are told to its listeners in the order they came, after
who asks has been looked up.

* `ledger p c ls`: the requests that came, those that were announced, and those that were
  withdrawn, denied or ended, by their slots.
* `Aside s t`: what does not touch the queue; all but a few operations.
* `Queued s`: the queue between two steps.
-/

namespace Teamspeak.Stream

def PubEvent.request? : PubEvent → Option RequestID
  | .request r => some r
  | .ended _ => none

/-- The requests a stream has told of. -/
def Published.shown (pub : Published) : List RequestID := pub.emitted.filterMap PubEvent.request?

/-- The slot is still that of a request to be announced. -/
def Session.Current (s : Session) (p : PubID) (sl : SlotID) : Prop :=
  (s.pubs p).resolving.get? (s.slots sl).clientId = some sl

instance (s : Session) (p : PubID) (sl : SlotID) : Decidable (s.Current p sl) :=
  inferInstanceAs (Decidable (_ = _))

/-- The slots of the requests to be announced. -/
def Session.waiting (s : Session) (p : PubID) : List SlotID :=
  (s.pubs p).slots.filter fun sl => s.Current p sl

/-- What an announcement whose turn it is comes to. -/
def Streams.turnOf (s : Streams) (p : PubID) : List (TicketEvent SlotID) :=
  match (s.pubs p).slots with
  | [] => []
  | head :: _ =>
    if s.Current p head then
      match (s.slots head).identity with
      | none => []
      | some identity => if s.isDenied identity then [.left head] else [.served head]
    else []

/-- The slots made in a step from `s` to `t`, for stream `p`. -/
def arrivals (p : PubID) (s t : Session) : List (TicketEvent SlotID) :=
  ((List.range' s.nextSlot (t.nextSlot - s.nextSlot)).filter fun sl =>
    (t.slots sl).stream = p).map .arrived

/-- What a step does to the requests of stream `p`: one comes, is announced, or leaves the
queue, withdrawn, denied or with the stream. -/
def record (p : PubID) (c : Config Streams Op) : Label Call Event → List (TicketEvent SlotID)
  | .event e =>
    arrivals p c.state.toSession (program.step c (.event e)).state.toSession
  | .call _ => []
  | .go =>
    match c.code with
    | .announce q :: _ => if q = p then c.state.turnOf p else []
    | .dropPending q clid :: _ =>
      if q = p then ((c.state.pubs p).resolving.get? clid).toList.map .left else []
    | .finish q _ :: _ =>
      if q = p ∧ (c.state.pubs p).ended = false then (c.state.waiting p).map .left else []
    | _ => []

/-- What became of the requests to watch stream `p`, over a run. -/
def ledger (p : PubID) : Config Streams Op → List (Label Call Event) → List (TicketEvent SlotID)
  | _, [] => []
  | c, l :: ls => record p c l ++ ledger p (program.step c l) ls

/-- What a join request is made of. -/
def JoinRequest.asked (request : JoinRequest) : PubID × ClientID × Identity × Str :=
  (request.stream, request.clientId, request.identity, request.message)

/-- `t` has the queues of `s`, and may have more streams. -/
structure Aside (s t : Session) : Prop where
  slots : t.slots = s.slots
  nextSlot : t.nextSlot = s.nextSlot
  nextRequest : t.nextRequest = s.nextRequest
  asked : ∀ r, (t.requests r).asked = (s.requests r).asked
  queue : ∀ p, (t.pubs p).slots = (s.pubs p).slots
  resolving : ∀ p, (t.pubs p).resolving = (s.pubs p).resolving
  shown : ∀ p, (t.pubs p).shown = (s.pubs p).shown
  ended : ∀ p, (t.pubs p).ended = true → (s.pubs p).ended = true
  born : (∀ id p, s.published.get? id = some p → p < s.nextPub) →
    ∀ id p, t.published.get? id = some p → p < t.nextPub
  le : s.nextPub ≤ t.nextPub

namespace Aside

variable {s t u : Session}

theorem refl (s : Session) : Aside s s :=
  ⟨rfl, rfl, rfl, fun _ => rfl, fun _ => rfl, fun _ => rfl, fun _ => rfl, fun _ h => h,
    fun h => h, Nat.le_refl _⟩

theorem trans (h : Aside s t) (h' : Aside t u) : Aside s u where
  slots := h'.slots.trans h.slots
  nextSlot := h'.nextSlot.trans h.nextSlot
  nextRequest := h'.nextRequest.trans h.nextRequest
  asked r := (h'.asked r).trans (h.asked r)
  queue p := (h'.queue p).trans (h.queue p)
  resolving p := (h'.resolving p).trans (h.resolving p)
  shown p := (h'.shown p).trans (h.shown p)
  ended p he := h.ended p (h'.ended p he)
  born hb := h'.born (h.born hb)
  le := h.le.trans h'.le

theorem of_eq (h : t = s) : Aside s t := h ▸ refl s

variable {x : Streams}

/-- Writes to peers and watches, and to the watches held. -/
theorem beside (hslots : t.slots = s.slots) (hnextSlot : t.nextSlot = s.nextSlot)
    (hnextRequest : t.nextRequest = s.nextRequest) (hrequests : t.requests = s.requests)
    (hpubs : t.pubs = s.pubs) (hpublished : t.published = s.published)
    (hnextPub : t.nextPub = s.nextPub) : Aside s t where
  slots := hslots
  nextSlot := hnextSlot
  nextRequest := hnextRequest
  asked r := by rw [hrequests]
  queue p := by rw [hpubs]
  resolving p := by rw [hpubs]
  shown p := by rw [hpubs]
  ended p he := by rwa [hpubs] at he
  born h := by rwa [hpublished, hnextPub]
  le := hnextPub.symm.le

theorem modifyPeer (x : Streams) (q : PeerID) (f : Peer → Peer) :
    Aside x.toSession (x.modifyPeer q f).toSession := beside rfl rfl rfl rfl rfl rfl rfl

theorem modifyWatch (x : Streams) (w : WatchID) (f : Watch → Watch) :
    Aside x.toSession (x.modifyWatch w f).toSession := beside rfl rfl rfl rfl rfl rfl rfl

theorem modifyPub (x : Streams) {p : PubID} {f : Published → Published}
    (hqueue : (f (x.pubs p)).slots = (x.pubs p).slots)
    (hresolving : (f (x.pubs p)).resolving = (x.pubs p).resolving)
    (hshown : (f (x.pubs p)).shown = (x.pubs p).shown)
    (hended : (f (x.pubs p)).ended = true → (x.pubs p).ended = true) :
    Aside x.toSession (x.modifyPub p f).toSession where
  slots := rfl
  nextSlot := rfl
  nextRequest := rfl
  asked _ := rfl
  queue j := by
    rw [Streams.pubs_modifyPub]
    split
    · rename_i hj
      rw [hqueue, hj]
    · rfl
  resolving j := by
    rw [Streams.pubs_modifyPub]
    split
    · rename_i hj
      rw [hresolving, hj]
    · rfl
  shown j := by
    rw [Streams.pubs_modifyPub]
    split
    · rename_i hj
      rw [hshown, hj]
    · rfl
  ended j he := by
    rw [Streams.pubs_modifyPub] at he
    split at he
    · rename_i hj
      rw [hj]
      exact hended he
    · exact he
  born h := h
  le := Nat.le_refl _

theorem modifyRequest (x : Streams) {r : RequestID} {f : JoinRequest → JoinRequest}
    (hf : (f (x.requests r)).asked = (x.requests r).asked) :
    Aside x.toSession (x.modifyRequest r f).toSession where
  slots := rfl
  nextSlot := rfl
  nextRequest := rfl
  asked j := by
    rw [Streams.requests_modifyRequest]
    split
    · rename_i hj
      rw [hf, hj]
    · rfl
  queue _ := rfl
  resolving _ := rfl
  shown _ := rfl
  ended _ h := h
  born h := h
  le := Nat.le_refl _

/-- Streams are no longer held. -/
theorem unpublish (s : Session) (published : InsertionMap Str PubID)
    (h : ∀ id p, published.get? id = some p → s.published.get? id = some p) :
    Aside s { s with published } :=
  ⟨rfl, rfl, rfl, fun _ => rfl, fun _ => rfl, fun _ => rfl, fun _ => rfl, fun _ h => h,
    fun hb id p hp => hb id p (h id p hp), Nat.le_refl _⟩

/-! ### Each operation -/

theorem deliver (x : Streams) (q : PeerID) (json : Str) :
    Aside x.toSession (x.deliver q json).1.toSession := by
  rw [Streams.deliver]
  split
  · exact refl _
  · exact modifyPeer x q _

theorem linkClosed (x : Streams) (q : PeerID) : Aside x.toSession (x.linkClosed q).toSession := by
  rw [Streams.linkClosed]
  dsimp only
  split
  · split
    · exact modifyPub x rfl rfl rfl id
    · exact refl _
  · exact beside rfl rfl rfl rfl rfl rfl rfl

theorem endPeer (x : Streams) (q : PeerID) (closed : PeerClosed) :
    Aside x.toSession (x.endPeer q closed).1.toSession := by
  rw [Streams.endPeer]
  split
  · exact refl _
  · exact ((modifyPeer x q _).trans (linkClosed _ q)).trans (modifyPeer _ q _)

theorem leave (x : Streams) (q : PeerID) : Aside x.toSession (x.leave q).toSession := by
  rw [Streams.leave]
  split
  · exact refl _
  · exact of_eq rfl

theorem closeRequest (x : Streams) (r : RequestID) (cause : RequestState) :
    Aside x.toSession (x.closeRequest r cause).1.toSession := by
  rw [Streams.closeRequest]
  split
  · exact refl _
  · exact modifyRequest x rfl

theorem openViewer (x : Streams) (p : PubID) (clid : ClientID) :
    Aside x.toSession (x.openViewer p clid).toSession := by
  have hpeer : Aside x.toSession ({ x with nextPeer := x.nextPeer + 1 }.modifyPeer x.nextPeer
      fun _ => { streamId := (x.pubs p).id, clientId := clid, owner := .viewer p }).toSession :=
    beside rfl rfl rfl rfl rfl rfl rfl
  exact hpeer.trans (modifyPub _ rfl rfl rfl id)

theorem accepting (x : Streams) (r : RequestID) :
    Aside x.toSession (x.accepting r).toSession := by
  have haccepted : Aside x.toSession
      (x.modifyRequest r fun request => { request with state := .accepted }).toSession :=
    modifyRequest x rfl
  exact haccepted.trans (openViewer _ _ _)

theorem accept (x : Streams) (r : RequestID) (offer : Str) (fits : Bool) :
    Aside x.toSession (x.accept r offer fits).1.toSession := by
  rw [Streams.accept]
  split_ifs <;> exact of_eq rfl

theorem deny (x : Streams) (r : RequestID) (fits : Bool) :
    Aside x.toSession (x.deny r fits).toSession := by
  rw [Streams.deny]
  split
  · exact refl _
  · have hdenied : Aside x.toSession
        (x.modifyRequest r fun request => { request with state := .denied }).toSession :=
      modifyRequest x rfl
    exact hdenied

theorem rememberViewer (x : Streams) (identity : Identity) :
    Aside x.toSession (x.rememberViewer identity).toSession := by
  rw [Streams.rememberViewer]
  split
  · exact refl _
  · split <;> exact of_eq rfl

theorem dropRequest (x : Streams) (p : PubID) (clid : ClientID) :
    Aside x.toSession (x.dropRequest p clid).1.toSession := by
  rw [Streams.dropRequest]
  split
  · exact refl _
  · exact closeRequest x _ _

theorem deletePending (x : Streams) (p : PubID) (clid : ClientID) :
    Aside x.toSession (x.deletePending p clid).toSession := modifyPub x rfl rfl rfl id

theorem endViewer (x : Streams) (p : PubID) (clid : ClientID) :
    Aside x.toSession (x.endViewer p clid).1.toSession := by
  rw [Streams.endViewer]
  split <;> exact refl _

theorem closeRequests (x : Streams) (p : PubID) (ended : StreamEnded) (rs : List RequestID) :
    Aside x.toSession (x.closeRequests p ended rs).1.toSession := by
  cases rs with
  | nil => exact modifyPub x rfl rfl rfl id
  | cons r rs => exact closeRequest x r .ended

theorem endPeers (x : Streams) (p : PubID) (ended : StreamEnded) (qs : List PeerID) :
    Aside x.toSession (x.endPeers p ended qs).1.toSession := by
  cases qs with
  | nil =>
    refine modifyPub x rfl rfl ?_ id
    simp [Published.shown, PubEvent.request?]
  | cons q qs => exact refl _

theorem endStream (x : Streams) (id : Str) (cause : EndCause) (reason : Nat) :
    Aside x.toSession (x.endStream id cause reason).1.toSession := by
  rw [(Streams.endStream_eq x id cause reason).1]
  refine unpublish _ _ fun id' p hp => ?_
  rw [InsertionMap.get?_delete] at hp
  split at hp
  · cases hp
  · exact hp

theorem rejectSettled (x : Streams) (w : WatchID) (failure : Failure) :
    Aside x.toSession (x.rejectSettled w failure).toSession := modifyWatch x w _

theorem endWatch (x : Streams) (id : Str) (info : Option StreamInfo) (cause : EndCause)
    (reason : Nat) : Aside x.toSession (x.endWatch id info cause reason).1.toSession := by
  rw [Streams.endWatch]
  split
  · exact refl _
  · dsimp only
    split
    · exact beside rfl rfl rfl rfl rfl rfl rfl
    · exact beside rfl rfl rfl rfl rfl rfl rfl

theorem stoppedEvent (x : Streams) (info : Option StreamInfo) (cause : EndCause) (reason : Nat) :
    Aside x.toSession (x.stoppedEvent info cause reason).1.toSession := by
  cases info with
  | none => exact refl _
  | some info => exact of_eq rfl

theorem closeWatch (x : Streams) (w : WatchID) (gone : Failure) (cause : PeerCloseCause) :
    Aside x.toSession (x.closeWatch w gone cause).1.toSession := by
  rw [Streams.closeWatch]
  split
  · exact refl _
  · exact rejectSettled x w gone

theorem reset (x : Streams) (gone : Failure) (ended : EndCause) (cause : PeerCloseCause) :
    Aside x.toSession (x.reset gone ended cause).1.toSession := by
  rw [Sound.session_reset]
  refine trans (unpublish _ .empty fun _ _ hp => ?_)
    (beside rfl rfl rfl rfl rfl rfl rfl)
  cases hp

theorem dispose (x : Streams) : Aside x.toSession x.dispose.1.toSession := by
  rw [Streams.dispose]
  split
  · exact refl _
  · exact reset { x with disposed := true } _ _ _

theorem endGone (x : Streams) (clid : ClientID) (ids : List Str) :
    Aside x.toSession (x.endGone clid ids).1.toSession := by
  cases ids with
  | nil => exact refl _
  | cons id ids =>
    rw [Streams.endGone]
    split
    · exact endStream x id .gone 0
    · exact refl _

theorem leaveStreams (x : Streams) (clid : ClientID) (ps : List PubID) :
    Aside x.toSession (x.leaveStreams clid ps).1.toSession := by
  cases ps with
  | nil => exact refl _
  | cons p ps =>
    rw [Streams.leaveStreams]
    split <;> exact refl _

theorem viewLeft (x : Streams) (id : Str) (clid : ClientID) :
    Aside x.toSession (x.viewLeft id clid).1.toSession := by
  rw [Streams.viewLeft]
  split
  · exact refl _
  · split <;> exact refl _

theorem viewerLeft (x : Streams) (id : Str) (clid : ClientID) :
    Aside x.toSession (x.viewerLeft id clid).1.toSession := by
  rw [Streams.viewerLeft]
  split <;> exact of_eq rfl

theorem answerWatch (x : Streams) (w : WatchID) (result : Except Failure PeerID) :
    Aside x.toSession (x.answerWatch w result).toSession := modifyWatch x w _

/-- A stream that is made takes a number that no queue has. -/
theorem adopted (x : Streams) (k : CallID) (info : StreamInfo)
    (hslots : (x.pubs x.nextPub).slots = []) (hresolving : (x.pubs x.nextPub).resolving = .empty)
    (hshown : (x.pubs x.nextPub).shown = []) :
    Aside x.toSession (x.adopted k info).toSession := by
  unfold Streams.adopted
  dsimp only
  split
  · exact of_eq rfl
  · let made := { x with
      nextPub := x.nextPub + 1
      published := x.published.set info.id x.nextPub }
    have hmade : Aside x.toSession made.toSession :=
      { slots := rfl
        nextSlot := rfl
        nextRequest := rfl
        asked := fun _ => rfl
        queue := fun _ => rfl
        resolving := fun _ => rfl
        shown := fun _ => rfl
        ended := fun _ h => h
        born := fun hb id p hp => by
          change (x.published.set info.id x.nextPub).get? id = some p at hp
          change p < x.nextPub + 1
          rw [InsertionMap.get?_set] at hp
          split at hp
          · cases hp
            exact Nat.lt_succ_self _
          · exact Nat.lt_succ_of_lt (hb id p hp)
        le := Nat.le_succ _ }
    have hpub : Aside made.toSession
        (made.modifyPub x.nextPub fun _ => { id := info.id }).toSession :=
      modifyPub made hslots.symm hresolving.symm hshown.symm (absurd · Bool.false_ne_true)
    exact hmade.trans hpub

/-! ### Calls -/

theorem publish (x : Streams) : Aside x.toSession x.publish.toSession := by
  rw [Streams.publish]
  split <;> exact of_eq rfl

theorem watch (x : Streams) (target : Str ⊕ StreamInfo) (aborted : Bool) :
    Aside x.toSession (x.watch target aborted).toSession := by
  rw [Streams.watch]
  dsimp only
  split
  · exact refl _
  · split
    · exact refl _
    · exact beside rfl rfl rfl rfl rfl rfl rfl

theorem giveUpWatch (x : Streams) (w : WatchID) (failure : Failure) :
    Aside x.toSession (x.giveUpWatch w failure).toSession := by
  rw [Streams.giveUpWatch]
  split
  · exact refl _
  · exact modifyWatch x w _

theorem stop (x : Streams) (p : PubID) (reason : Nat) :
    Aside x.toSession (x.stop p reason).toSession := by
  rw [Streams.stop]
  split <;> exact of_eq rfl

theorem closePeer (x : Streams) (q : PeerID) : Aside x.toSession (x.closePeer q).1.toSession := by
  rw [Streams.closePeer]
  split <;> exact refl _

theorem call (x : Streams) (k : Call) : Aside x.toSession (Streams.call k x).1.toSession := by
  cases k with
  | publish => exact publish x
  | giveUp k failure =>
    rw [Streams.call]
    split <;> exact of_eq rfl
  | watch target aborted => exact watch x target aborted
  | giveUpWatch w failure => exact giveUpWatch x w failure
  | stop p reason =>
    rw [Streams.call]
    split
    · exact stop x p reason
    · exact refl _
  | close q =>
    rw [Streams.call]
    split
    · exact closePeer x q
    · exact refl _
  | accept r offer fits =>
    rw [Streams.call]
    split
    · exact accept x r offer fits
    · exact refl _
  | deny r fits =>
    rw [Streams.call]
    split
    · exact deny x r fits
    · exact refl _
  | dispose => exact dispose x
  | onSent w => exact modifyWatch x w _
  | client connected supported view => exact of_eq rfl

/-! ### Events -/

theorem learn (x : Streams) (info : StreamInfo) :
    Aside x.toSession (x.learn info).1.toSession := by
  rw [Streams.learn]
  split
  · exact refl _
  · dsimp only
    split
    · exact of_eq rfl
    · split <;> exact of_eq rfl

theorem setupInfo (x : Streams) (k : CallID) (info : Option StreamInfo) :
    Aside x.toSession (x.setupInfo k info).1.toSession := by
  cases info with
  | none =>
    rw [Streams.setupInfo]
    split <;> exact of_eq rfl
  | some info =>
    rw [Streams.setupInfo]
    dsimp only
    split
    · split <;> exact of_eq rfl
    · split
      · exact endStream { x.emit (.announced k info.id x.connected) with
          orphans := remember maxOrphans info.id x.orphans } info.id .stopped 0
      · split
        · exact of_eq rfl
        · exact learn (x.emit (.announced k info.id x.connected)) info

theorem setup (x : Streams) (k : CallID) (result : Except Failure (List Params)) :
    Aside x.toSession (x.setup k result).1.toSession := by
  rw [Streams.setup]
  split
  · exact refl _
  · split
    · exact of_eq rfl
    · exact setupInfo (x.modifyAttempt k fun attempt => { attempt with sending := false }) k _

theorem joined (x : Streams) (w : WatchID) (result : Except Failure Unit) :
    Aside x.toSession (x.joined w result).toSession := by
  rw [Streams.joined]
  split
  · exact refl _
  · exact modifyWatch x w _

theorem noted (x : Streams) (k : CallID) : Aside x.toSession (x.noted k).toSession := by
  rw [Streams.noted]
  split <;> exact of_eq rfl

theorem heardWatch (x : Streams) (w : WatchID) :
    Aside x.toSession (x.heardWatch w).toSession := by
  rw [Streams.heardWatch]
  split
  · exact answerWatch x w _
  · exact modifyWatch x w _
  · exact answerWatch x w _
  · exact answerWatch x w _
  · exact refl _

theorem caught (x : Streams) (w : WatchID) : Aside x.toSession (x.caught w).1.toSession := by
  rw [Streams.caught]
  dsimp only
  split
  · split
    · split
      · exact answerWatch x w _
      · split
        · exact answerWatch x w _
        · exact modifyWatch x w _
    · let left := { x with watching := x.watching.delete (x.watches w).id }
      have hleft : Aside x.toSession left.toSession := beside rfl rfl rfl rfl rfl rfl rfl
      split
      · exact hleft.trans (endStream left (x.watches w).id .gone 0)
      · split
        · exact hleft.trans (answerWatch (left.bestEffort _) w _)
        · exact hleft.trans (answerWatch left w _)
  · exact refl _

theorem discover (x : Streams) (clid : ClientID) :
    Aside x.toSession (x.discover clid).toSession := by
  rw [Streams.discover]
  split <;> exact of_eq rfl

theorem forget (x : Streams) (clid : ClientID) : Aside x.toSession (x.forget clid).toSession := by
  rw [Streams.forget]
  dsimp only
  split_ifs <;> exact of_eq rfl

theorem streaming (x : Streams) (clid : ClientID) (isStreaming : Option Bool) :
    Aside x.toSession (x.streaming clid isStreaming).toSession := by
  cases isStreaming with
  | none => exact refl _
  | some isStreaming =>
    cases isStreaming with
    | true => exact discover (x.cancelGone clid) clid
    | false => exact forget x clid

theorem gone (x : Streams) (clid : ClientID) : Aside x.toSession (x.gone clid).1.toSession := by
  rw [Streams.gone]
  split <;> exact of_eq rfl

theorem onInfo (x : Streams) (params : Params) :
    Aside x.toSession (x.onInfo params).1.toSession := by
  rw [Streams.onInfo]
  split
  · exact refl _
  · exact learn x _

theorem openView (x : Streams) (w : WatchID) : Aside x.toSession (x.openView w).toSession :=
  beside rfl rfl rfl rfl rfl rfl rfl

theorem onRespond (x : Streams) (params : Params) :
    Aside x.toSession (x.onRespond params).toSession := by
  rw [Streams.onRespond]
  dsimp only
  split
  · exact refl _
  · split
    · exact refl _
    · split
      · exact beside rfl rfl rfl rfl rfl rfl rfl
      · split
        · exact beside rfl rfl rfl rfl rfl rfl rfl
        · exact openView x _

theorem keepEarly (x : Streams) (w : WatchID) (json : Str) :
    Aside x.toSession (x.keepEarly w json).1.toSession := by
  rw [Streams.keepEarly]
  dsimp only
  split
  · split <;> exact beside rfl rfl rfl rfl rfl rfl rfl
  · exact modifyWatch x w _

theorem signalView (x : Streams) (id json : Str) :
    Aside x.toSession (x.signalView id json).1.toSession := by
  rw [Streams.signalView]
  split
  · split
    · exact deliver x _ json
    · exact keepEarly x _ json
  · split <;> exact of_eq rfl

theorem onSignaling (x : Streams) (params : Params) :
    Aside x.toSession (x.onSignaling params).1.toSession := by
  rw [Streams.onSignaling]
  split
  · exact signalView x _ _
  · split
    · exact deliver x _ _
    · split
      · exact refl _
      · exact signalView x _ _

theorem onClientJoined (x : Streams) (params : Params) :
    Aside x.toSession (x.onClientJoined params).1.toSession := by
  rw [Streams.onClientJoined]
  split
  · exact refl _
  · split <;> exact of_eq rfl

theorem onClientLeft (x : Streams) (params : Params) :
    Aside x.toSession (x.onClientLeft params).1.toSession := by
  rw [Streams.onClientLeft]
  split <;> exact refl _

theorem onStopped (x : Streams) (params : Params) :
    Aside x.toSession (x.onStopped params).1.toSession := by
  rw [Streams.onStopped]
  split
  · exact refl _
  · exact endStream (x.emit (.stopReported _)) _ .server (reasonOf params)

theorem report (x : Streams) (failure : Failure) :
    Aside x.toSession (x.report failure).1.toSession := by
  rw [Streams.report]
  split <;> exact of_eq rfl

theorem answered (x : Streams) (job : Job) (result : Except Failure Unit) :
    Aside x.toSession (x.answered job result).1.toSession := by
  rw [Streams.answered]
  split
  · exact refl _
  · let done : Streams := { x with jobs := x.jobs.erase job }
    have hfailed : ∀ r, Aside x.toSession
        (done.modifyRequest r fun request => { request with state := .failed }).toSession :=
      fun r => modifyRequest done rfl
    dsimp only
    split
    · exact of_eq rfl
    · exact hfailed _
    · exact rememberViewer done _
    · exact hfailed _
    · exact endStream done _ .stopped _
    · split
      · exact endStream done _ .stopped _
      · exact of_eq rfl
    · exact of_eq rfl
    · exact report done _
    · exact of_eq rfl
    · split <;> exact of_eq rfl

/-- An event that is no join request, and no answer to a lookup. -/
theorem event {e : Event} (x : Streams)
    (hjoin : ∀ name params, e = .notification name params →
      name ≠ .of "notifyjoinstreamrequest")
    (hlookup : ∀ sl identity, e ≠ .identified sl identity) :
    Aside x.toSession (Streams.event e x).1.toSession := by
  have hsubscribed : ∀ turn : Turn, Aside x.toSession turn.1.toSession →
      Aside x.toSession (x.subscribed turn).1.toSession := by
    intro turn h
    rw [Streams.subscribed]
    split
    · exact refl _
    · exact h
  cases e with
  | notification name params =>
    refine hsubscribed _ ?_
    rw [Streams.onNotification]
    split
    · exact onInfo x params
    · split
      · exact onInfo x params
      · rw [if_neg (hjoin name params rfl)]
        split
        · exact onRespond x params
        · split
          · exact onSignaling x params
          · split
            · exact onClientJoined x params
            · split
              · exact onClientLeft x params
              · split
                · exact onStopped x params
                · exact refl _
  | clientEnter clid isStreaming => exact hsubscribed _ (streaming x clid isStreaming)
  | clientUpdated clid isStreaming => exact hsubscribed _ (streaming x clid isStreaming)
  | clientLeave clid => exact hsubscribed _ (of_eq rfl)
  | disconnected => exact hsubscribed _ (reset x _ _ _)
  | gone clid => exact gone x clid
  | setup k result => exact setup x k result
  | joined w result => exact joined x w result
  | identified sl identity => exact absurd rfl (hlookup sl identity)
  | answered job result => exact answered x job result
  | heard k => exact of_eq rfl
  | noted k => exact noted x k
  | heardWatch w => exact heardWatch x w
  | caught w => exact caught x w

/-- The operations on the queue. -/
def ofQueue : Op → Bool
  | .finish _ _ | .dropPending _ _ | .advance _ | .announce _ => true
  | _ => false

theorem exec {op : Op} (x : Streams) (hop : ofQueue op = false)
    (hslots : (x.pubs x.nextPub).slots = []) (hresolving : (x.pubs x.nextPub).resolving = .empty)
    (hshown : (x.pubs x.nextPub).shown = []) :
    Aside x.toSession (Streams.exec op x).1.toSession := by
  cases op with
  | finish | dropPending | advance | announce => cases hop
  | adopted k info => exact adopted x k info hslots hresolving hshown
  | listen | orphaned | forgetDenied | forgetClosedViews | unorphan => exact of_eq rfl
  | endWatch id info cause reason => exact endWatch x id info cause reason
  | stoppedEvent info cause reason => exact stoppedEvent x info cause reason
  | closeRequests p rs ended => exact closeRequests x p ended rs
  | endPeers p qs ended => exact endPeers x p ended qs
  | endPeer q closed => exact endPeer x q closed
  | leave q => exact leave x q
  | closeWatch w gone cause => exact closeWatch x w gone cause
  | endGone clid ids => exact endGone x clid ids
  | leaveStreams clid ps => exact leaveStreams x clid ps
  | dropRequest p clid => exact dropRequest x p clid
  | deletePending p clid => exact deletePending x p clid
  | endViewer p clid => exact endViewer x p clid
  | viewLeft id clid => exact viewLeft x id clid
  | viewerLeft id clid => exact viewerLeft x id clid
  | accepting r => exact accepting x r
  | rejectWatch w failure => exact answerWatch x w _

end Aside

end Teamspeak.Stream
