import Teamspeak.Stream.Sound

/-!
# What publishes and watches nothing new

All but a few of the steps make no stream and no watch: what they write to has ended, or is
about to, and the calls of `publish` stay as they are.

* `Calm s turn`: so does `turn`, from `s`.
* `Calm.call`, `Calm.event`, `Calm.exec`: the calls, events and operations that are so.
-/

namespace Teamspeak.Stream

/-- What follows the answer to a `setupstream`. -/
def Op.isSetup : Op → Bool
  | .adopted _ _ | .orphaned _ _ => true
  | _ => false

/-- What answers `setupstream`. -/
def Output.isAnnounced : Output → Bool
  | .announced _ _ _ => true
  | _ => false

def Job.stops : Job → Bool
  | .stop _ _ => true
  | _ => false

/-- What the objects hang on, the calls of `publish`, and what is known of streams that have
stopped. -/
def Streams.frame (s : Streams) :=
  (s.published, s.watching, s.peers, s.requests, s.nextPub, s.nextPeer, s.nextRequest,
    s.nextWatch, s.attempts, s.publishing, s.nextCall, s.disposed, s.jobs, s.trace, s.stopped,
    fun p => (s.pubs p).id)

/-- A stream that is published, or was, or that a `stop` is out for. -/
def Streams.Stops (s : Streams) (p : PubID) : Prop :=
  p < s.nextPub ∨ ∃ reason, Job.stop p reason ∈ s.jobs

/-- The id of a stream that was reported stopped or announced, or that was published. -/
def Streams.Known (s : Streams) (id : Str) : Prop :=
  .stopReported id ∈ s.trace ∨ (∃ k b, .announced k id b ∈ s.trace) ∨
    ∃ p, s.Stops p ∧ (s.pubs p).id = id

structure Calm (s : Streams) (turn : Turn) : Prop where
  nextPub : turn.1.nextPub = s.nextPub
  nextWatch : turn.1.nextWatch = s.nextWatch
  nextPeer : s.nextPeer ≤ turn.1.nextPeer
  nextRequest : s.nextRequest ≤ turn.1.nextRequest
  published : ∀ id p, turn.1.published.get? id = some p → s.published.get? id = some p
  watching : ∀ id w, turn.1.watching.get? id = some w → s.watching.get? id = some w
  peers : ∀ q < s.nextPeer, (turn.1.peers q).owner = (s.peers q).owner ∧
    ((s.peers q).closed = true → (turn.1.peers q).closed = true)
  requests : ∀ r < s.nextRequest, (turn.1.requests r).stream = (s.requests r).stream ∧
    ((s.requests r).state ≠ .pending → (turn.1.requests r).state ≠ .pending)
  attempts : turn.1.attempts = s.attempts
  publishing : turn.1.publishing = s.publishing
  nextCall : turn.1.nextCall = s.nextCall
  disposed : turn.1.disposed = s.disposed
  pubs : ∀ p, (turn.1.pubs p).id = (s.pubs p).id
  jobs : ∀ p reason, Job.stop p reason ∈ turn.1.jobs → s.Stops p
  trace : ∃ outs, turn.1.trace = s.trace ++ outs ∧ ∀ o ∈ outs, o.isAnnounced = false
  stopped : ∀ id ∈ turn.1.stopped, id ∈ s.stopped ∨ .stopReported id ∈ turn.1.trace ∨ s.Known id
  ops : ∀ op ∈ turn.2, op.isSetup = false

theorem mem_of_mem_renew {α : Type*} [DecidableEq α] {bound : Nat} {a b : α} {l : List α}
    (h : b ∈ renew bound a l) : b = a ∨ b ∈ l := by
  have htail : ∀ {l' : List α}, b ∈ (if l'.length > bound then l'.tail else l') → b ∈ l' := by
    intro l' h
    split at h
    · exact List.mem_of_mem_tail h
    · exact h
  have hmem := htail h
  split at hmem
  · exact Or.inr (List.mem_of_mem_erase hmem)
  · rcases List.mem_append.mp hmem with hmem | hmem
    · exact Or.inr (List.mem_of_mem_erase hmem)
    · exact Or.inl (List.mem_singleton.mp hmem)

/-- A promise that is rejected has resolved only if it had before. -/
theorem settle_rejected_iff {outcome : Outcome PubID} {failure : Failure} {p : PubID} :
    outcome.settle (.rejected failure) = .resolved p ↔ outcome = .resolved p := by
  cases outcome with
  | pending => simp [Outcome.settle]
  | resolved p' => exact Iff.rfl
  | rejected failure' => exact Iff.rfl

/-- What `#reset` may make of an attempt. -/
structure ResetOf (before after : Attempt) : Prop where
  sending : after.sending = before.sending
  caller : after.caller = before.caller
  reset : before.reset = true → after.reset = true
  resolved : ∀ p, after.outcome = .resolved p ↔ before.outcome = .resolved p

theorem ResetOf.refl (attempt : Attempt) : ResetOf attempt attempt :=
  ⟨rfl, rfl, id, fun _ => Iff.rfl⟩

theorem ResetOf.trans {a b c : Attempt} (h : ResetOf a b) (h' : ResetOf b c) : ResetOf a c :=
  ⟨h'.sending.trans h.sending, h'.caller.trans h.caller, fun hreset => h'.reset (h.reset hreset),
    fun p => (h'.resolved p).trans (h.resolved p)⟩

/-- What `#reset` makes of the attempts, and that it writes to nothing else. -/
theorem resets (s : Streams) (gone : Failure) (ks : List CallID) :
    ∃ attempts, ks.foldl (Streams.resetAttempt gone) s = { s with attempts } ∧
      ∀ k, ResetOf (s.attempts k) (attempts k) ∧ (k ∈ ks → (attempts k).reset = true) := by
  induction ks generalizing s with
  | nil => exact ⟨s.attempts, rfl, fun k => ⟨.refl _, fun h => absurd h List.not_mem_nil⟩⟩
  | cons k' ks ih =>
    obtain ⟨attempts, hfold, hattempts⟩ := ih (Streams.resetAttempt gone s k')
    refine ⟨attempts, hfold, fun k => ?_⟩
    obtain ⟨hof, hreset⟩ := hattempts k
    rw [Streams.resetAttempt, Streams.attempts_modifyAttempt] at hof
    by_cases hk : k = k'
    · rw [if_pos hk, ← hk] at hof
      have hfirst : ResetOf (s.attempts k) { s.attempts k with
          reset := true, outcome := (s.attempts k).outcome.settle (.rejected gone) } :=
        ⟨rfl, rfl, fun _ => rfl, fun p => settle_rejected_iff⟩
      exact ⟨hfirst.trans hof, fun _ => hof.reset rfl⟩
    · rw [if_neg hk] at hof
      exact ⟨hof, fun hmem => hreset ((List.mem_cons.mp hmem).resolve_left hk)⟩

namespace Calm

variable {s t : Streams} {turn : Turn}

theorem reported (h : Calm s turn) {id : Str} (hmem : .stopReported id ∈ s.trace) :
    .stopReported id ∈ turn.1.trace := by
  obtain ⟨outs, htrace, -⟩ := h.trace
  exact htrace ▸ List.mem_append_left _ hmem

theorem announced_iff (h : Calm s turn) {k : CallID} {id : Str} {b : Bool} :
    .announced k id b ∈ turn.1.trace ↔ .announced k id b ∈ s.trace := by
  obtain ⟨outs, htrace, houts⟩ := h.trace
  rw [htrace, List.mem_append, or_iff_left]
  intro hmem
  cases houts _ hmem

theorem of_frame (h : turn.1.frame = s.frame) (hops : ∀ op ∈ turn.2, op.isSetup = false) :
    Calm s turn := by
  simp only [Streams.frame, Prod.mk.injEq] at h
  obtain ⟨hpublished, hwatching, hpeers, hrequests, hpub, hpeer, hrequest, hwatch, hattempts,
    hpublishing, hcall, hdisposed, hjobs, htrace, hstopped, hpubs⟩ := h
  exact
    { nextPub := hpub
      nextWatch := hwatch
      nextPeer := hpeer.ge
      nextRequest := hrequest.ge
      published := fun id p hget => hpublished ▸ hget
      watching := fun id w hget => hwatching ▸ hget
      peers := fun q _ => hpeers ▸ ⟨rfl, id⟩
      requests := fun r _ => hrequests ▸ ⟨rfl, id⟩
      attempts := hattempts
      publishing := hpublishing
      nextCall := hcall
      disposed := hdisposed
      pubs := congrFun hpubs
      jobs := fun p reason hmem => Or.inr ⟨reason, hjobs ▸ hmem⟩
      trace := ⟨[], htrace.trans (List.append_nil _).symm, List.forall_mem_nil _⟩
      stopped := fun id hmem => Or.inl (hstopped ▸ hmem)
      ops := hops }

/-- Nothing that counts is written, and nothing follows. -/
theorem quiet (h : t.frame = s.frame) : Calm s (t, []) := of_frame h (List.forall_mem_nil _)

theorem refl (s : Streams) : Calm s (s, []) := quiet rfl

theorem tells (h : t.frame = s.frame) : Calm s (t, [.listen]) :=
  of_frame h (List.forall_mem_singleton.mpr rfl)

theorem stops (h : Calm s turn) {p : PubID} (hp : turn.1.Stops p) : s.Stops p := by
  rcases hp with hlt | ⟨reason, hmem⟩
  · exact Or.inl (h.nextPub ▸ hlt)
  · exact h.jobs p reason hmem

/-- One thing is done, then the other. -/
theorem after (h : Calm s (t, [])) (h' : Calm t turn) : Calm s turn where
  nextPub := h'.nextPub.trans h.nextPub
  nextWatch := h'.nextWatch.trans h.nextWatch
  nextPeer := h.nextPeer.trans h'.nextPeer
  nextRequest := h.nextRequest.trans h'.nextRequest
  published id p hget := h.published id p (h'.published id p hget)
  watching id w hget := h.watching id w (h'.watching id w hget)
  peers q hq := by
    obtain ⟨howner, hclosed⟩ := h.peers q hq
    obtain ⟨howner', hclosed'⟩ := h'.peers q (hq.trans_le h.nextPeer)
    exact ⟨howner'.trans howner, fun hc => hclosed' (hclosed hc)⟩
  requests r hr := by
    obtain ⟨hstream, hstate⟩ := h.requests r hr
    obtain ⟨hstream', hstate'⟩ := h'.requests r (hr.trans_le h.nextRequest)
    exact ⟨hstream'.trans hstream, fun hs => hstate' (hstate hs)⟩
  attempts := h'.attempts.trans h.attempts
  publishing := h'.publishing.trans h.publishing
  nextCall := h'.nextCall.trans h.nextCall
  disposed := h'.disposed.trans h.disposed
  pubs p := (h'.pubs p).trans (h.pubs p)
  jobs p reason hmem := h.stops (h'.jobs p reason hmem)
  trace := by
    obtain ⟨outs, htrace, houts⟩ := h.trace
    obtain ⟨outs', htrace', houts'⟩ := h'.trace
    refine ⟨outs ++ outs', ?_, List.forall_mem_append.mpr ⟨houts, houts'⟩⟩
    rw [htrace', htrace, List.append_assoc]
  stopped id hmem := by
    rcases h'.stopped id hmem with hold | hreported | hreported | ⟨k, b, hannounced⟩ | ⟨p, hp, hid⟩
    · exact (h.stopped id hold).imp_right (Or.imp_left h'.reported)
    · exact Or.inr (Or.inl hreported)
    · exact Or.inr (Or.inl (h'.reported hreported))
    · exact Or.inr (Or.inr (Or.inr (Or.inl ⟨k, b, h.announced_iff.mp hannounced⟩)))
    · exact Or.inr (Or.inr (Or.inr (Or.inr ⟨p, h.stops hp, (h.pubs p).symm.trans hid⟩)))
  ops := h'.ops

/-- What follows may be more. -/
theorem follow {ops ops' : List Op} (h : Calm s (t, ops)) (hops : ∀ op ∈ ops', op.isSetup = false) :
    Calm s (t, ops') := { h with ops := hops }

/-- One operation follows. -/
theorem queued (h : Calm s (t, [])) {op : Op} (hop : op.isSetup = false) : Calm s (t, [op]) :=
  h.follow (List.forall_mem_singleton.mpr hop)

theorem told (h : Calm s (t, [])) : Calm s (t, [.listen]) := h.queued rfl

theorem then_ (h : Calm s turn) {op : Op} (hop : op.isSetup = false) :
    Calm s (turn.1, turn.2 ++ [op]) :=
  h.follow (List.forall_mem_append.mpr ⟨h.ops, List.forall_mem_singleton.mpr hop⟩)

theorem emit (s : Streams) {o : Output} (ho : o.isAnnounced = false) : Calm s (s.emit o, []) :=
  { refl s with
    trace := ⟨[o], rfl, List.forall_mem_singleton.mpr ho⟩
    stopped := fun _ hmem => Or.inl hmem }

theorem send (s : Streams) (command : Command) : Calm s (s.send command, []) := emit s rfl

/-- A command goes out with an answer that something goes on from. -/
theorem request (s : Streams) (command : Command) (job : Job)
    (hjob : job.stops = false) : Calm s (s.request command job, []) :=
  { send s command with
    jobs := fun p reason hmem => by
      rcases List.mem_append.mp hmem with hmem | hmem
      · exact Or.inr ⟨reason, hmem⟩
      · rw [← List.mem_singleton.mp hmem] at hjob
        cases hjob }

theorem bestEffort (s : Streams) (command : Command) : Calm s (s.bestEffort command, []) :=
  request s command .goodbye rfl

/-- A stream keeps its id. -/
theorem modifyPub (s : Streams) (p : PubID) {f : Published → Published}
    (hf : (f (s.pubs p)).id = (s.pubs p).id) : Calm s (s.modifyPub p f, []) :=
  { refl s with
    pubs := fun j => by
      rw [Streams.pubs_modifyPub]
      split
      · rename_i heq
        rw [heq, hf]
      · rfl }

theorem modifySlot (s : Streams) (sl : SlotID) (f : Slot → Slot) :
    Calm s (s.modifySlot sl f, []) := quiet rfl

theorem modifyWatch (s : Streams) (w : WatchID) (f : Watch → Watch) :
    Calm s (s.modifyWatch w f, []) := quiet rfl

theorem modifyPeer (s : Streams) (q : PeerID) {f : Peer → Peer}
    (howner : (f (s.peers q)).owner = (s.peers q).owner)
    (hclosed : (s.peers q).closed = true → (f (s.peers q)).closed = true) :
    Calm s (s.modifyPeer q f, []) :=
  { refl s with
    peers := fun j hj => by
      rw [Streams.peers_modifyPeer]
      split
      · rename_i heq
        rw [heq]
        exact ⟨howner, hclosed⟩
      · exact ⟨rfl, id⟩ }

theorem modifyRequest (s : Streams) (r : RequestID) {f : JoinRequest → JoinRequest}
    (hstream : (f (s.requests r)).stream = (s.requests r).stream)
    (hstate : (f (s.requests r)).state ≠ .pending) : Calm s (s.modifyRequest r f, []) :=
  { refl s with
    requests := fun j hj => by
      rw [Streams.requests_modifyRequest]
      split
      · rename_i heq
        rw [heq]
        exact ⟨hstream, fun _ => hstate⟩
      · exact ⟨rfl, id⟩ }

/-- A peer is made. -/
theorem newPeer (s : Streams) (peer : Peer) :
    Calm s ({ s with nextPeer := s.nextPeer + 1 }.modifyPeer s.nextPeer fun _ => peer, []) :=
  { refl s with
    nextPeer := Nat.le_succ _
    peers := fun q hq => by
      rw [Streams.peers_modifyPeer, if_neg (Nat.ne_of_lt hq)]
      exact ⟨rfl, id⟩ }

/-- A request is made. -/
theorem newRequest (s : Streams) (request : JoinRequest) :
    Calm s ({ s with nextRequest := s.nextRequest + 1 }.modifyRequest s.nextRequest
      fun _ => request, []) :=
  { refl s with
    nextRequest := Nat.le_succ _
    requests := fun r hr => by
      rw [Streams.requests_modifyRequest, if_neg (Nat.ne_of_lt hr)]
      exact ⟨rfl, id⟩ }

theorem unpublish (s : Streams) (id : Str) :
    Calm s ({ s with published := s.published.delete id }, []) :=
  { refl s with
    published := fun id' p hget => by
      change (s.published.delete id).get? id' = some p at hget
      rw [InsertionMap.get?_delete] at hget
      split at hget
      · cases hget
      · exact hget }

theorem unwatch (s : Streams) (id : Str) :
    Calm s ({ s with watching := s.watching.delete id }, []) :=
  { refl s with
    watching := fun id' w hget => by
      change (s.watching.delete id).get? id' = some w at hget
      rw [InsertionMap.get?_delete] at hget
      split at hget
      · cases hget
      · exact hget }

/-! ### Peers -/

theorem deliver (s : Streams) (q : PeerID) (json : Str) : Calm s (s.deliver q json) := by
  rw [Streams.deliver]
  split
  · exact refl s
  · exact (modifyPeer s q rfl fun hclosed => hclosed).told

theorem linkClosed (s : Streams) (q : PeerID) : Calm s (s.linkClosed q, []) := by
  rw [Streams.linkClosed]
  dsimp only
  split
  · split
    · exact modifyPub s _ rfl
    · exact refl s
  · split
    · exact (unwatch s _).after (quiet rfl)
    · exact quiet rfl

theorem endPeer (s : Streams) (q : PeerID) (closed : PeerClosed) :
    Calm s (s.endPeer q closed) := by
  rw [Streams.endPeer]
  split
  · exact refl s
  · have hclosed : Calm s (s.modifyPeer q fun peer => { peer with closed := true }, []) :=
      modifyPeer s q rfl fun _ => rfl
    have hlet := hclosed.after (linkClosed _ q)
    have htold := hlet.after (modifyPeer _ q
      (f := fun peer => { peer with emitted := peer.emitted ++ [PeerEvent.closed closed] }) rfl
      fun hclosed => hclosed)
    exact htold.told

theorem closePeer (s : Streams) (q : PeerID) : Calm s (s.closePeer q) := by
  rw [Streams.closePeer]
  split
  · exact refl s
  · exact of_frame rfl (by simp [Op.isSetup])

theorem leave (s : Streams) (q : PeerID) : Calm s (s.leave q, []) := by
  rw [Streams.leave]
  split
  · exact refl s
  · exact send s _

theorem endViewer (s : Streams) (p : PubID) (clid : ClientID) : Calm s (s.endViewer p clid) := by
  rw [Streams.endViewer]
  split
  · exact refl s
  · exact of_frame rfl (by simp [Op.isSetup])

theorem viewLeft (s : Streams) (id : Str) (clid : ClientID) : Calm s (s.viewLeft id clid) := by
  rw [Streams.viewLeft]
  split
  · exact refl s
  · split
    · exact of_frame rfl (by simp [Op.isSetup])
    · exact refl s

/-! ### Requests -/

theorem closeRequest (s : Streams) (r : RequestID) {cause : RequestState}
    (hcause : cause ≠ .pending) : Calm s (s.closeRequest r cause) := by
  rw [Streams.closeRequest]
  split
  · exact refl s
  · exact (modifyRequest s r
      (f := fun request => { request with state := cause, emitted := request.emitted ++ [cause] })
      rfl hcause).told

theorem answer (s : Streams) (r : RequestID) (state : RequestState) (hstate : state ≠ .pending) :
    Calm s (s.modifyRequest r fun request => { request with state }, []) :=
  modifyRequest s r rfl hstate

theorem openViewer (s : Streams) (p : PubID) (clid : ClientID) :
    Calm s (s.openViewer p clid, []) := by
  rw [Streams.openViewer]
  exact (newPeer s _).after (modifyPub _ p rfl)

theorem accept (s : Streams) (r : RequestID) (offer : Str) (fits : Bool) :
    Calm s (s.accept r offer fits) := by
  rw [Streams.accept]
  split
  · exact refl s
  split
  · exact of_frame rfl (by simp [Op.isSetup])
  · exact (emit s rfl).follow (by simp [Op.isSetup])

theorem accepting (s : Streams) (r : RequestID) : Calm s (s.accepting r, []) := by
  have haccepted := answer s r .accepted nofun
  exact (haccepted.after (openViewer _ _ _)).after (request _ _ _ rfl)

theorem deny (s : Streams) (r : RequestID) (fits : Bool) : Calm s (s.deny r fits, []) := by
  rw [Streams.deny]
  split
  · exact refl s
  · exact (answer s r .denied nofun).after (request _ _ _ rfl)

theorem rememberViewer (s : Streams) (identity : Identity) :
    Calm s (s.rememberViewer identity, []) := by
  rw [Streams.rememberViewer]
  split
  · exact refl s
  · split
    · exact quiet rfl
    · exact refl s

/-! ### Queues of requests -/

theorem lookUp (s : Streams) (p : PubID) (sl : SlotID) :
    Calm s (Streams.lookUp p s sl, []) := by
  rw [Streams.lookUp]
  split
  · exact refl s
  split
  · exact refl s
  split
  · exact modifySlot s sl _
  · exact modifySlot s sl _

theorem advance (s : Streams) (p : PubID) : Calm s (s.advance p) := by
  rw [Streams.advance]
  refine queued ?_ rfl
  generalize (s.pubs p).slots = slots
  induction slots generalizing s with
  | nil => exact refl s
  | cons sl slots ih => exact (lookUp s p sl).after (ih _)

theorem announceSlot (s : Streams) (p : PubID) (slot : Slot) (identity : Identity) :
    Calm s (s.announceSlot p slot identity) := by
  have hless : Calm s (s.modifyPub p fun pub =>
      { pub with resolving := pub.resolving.delete slot.clientId }, []) := modifyPub s p rfl
  rw [Streams.announceSlot]
  generalize (s.modifyPub p fun pub =>
    { pub with resolving := pub.resolving.delete slot.clientId }) = u at hless ⊢
  dsimp only
  split
  · exact hless
  · exact told (hless.after (after (newRequest u _) (modifyPub _ p rfl)))

theorem announce (s : Streams) (p : PubID) : Calm s (s.announce p) := by
  rw [Streams.announce]
  split
  · exact refl s
  dsimp only
  split
  · split
    · exact refl s
    · refine then_ ?_ rfl
      exact (modifyPub s p rfl).after (announceSlot _ p _ _)
  · exact (modifyPub s p rfl).queued rfl

theorem requestViewer (s : Streams) (p : PubID) (clid : ClientID) (message : Str) :
    Calm s (s.requestViewer p clid message) := by
  rw [Streams.requestViewer]
  dsimp only
  split
  · exact refl s
  split
  · exact refl s
  · have hslot : Calm s ({ s with nextSlot := s.nextSlot + 1 }.modifySlot s.nextSlot fun _ =>
        { stream := p, clientId := clid, message }, []) := quiet rfl
    exact (hslot.after (modifyPub _ p rfl)).queued rfl

theorem identified (s : Streams) (sl : SlotID) (identity : Identity) :
    Calm s (s.identified sl identity) := by
  rw [Streams.identified]
  split
  · exact of_frame rfl (List.forall_mem_singleton.mpr rfl)
  · exact refl s

theorem dropPending (s : Streams) (p : PubID) (clid : ClientID) : Calm s (s.dropPending p clid) := by
  rw [Streams.dropPending]
  split
  · exact of_frame rfl (List.forall_mem_singleton.mpr rfl)
  · refine follow (modifyPub s p ?_) (by simp [Op.isSetup])
    rfl

theorem dropRequest (s : Streams) (p : PubID) (clid : ClientID) : Calm s (s.dropRequest p clid) := by
  rw [Streams.dropRequest]
  split
  · exact of_frame rfl (List.forall_mem_singleton.mpr rfl)
  · refine then_ ?_ rfl
    exact closeRequest s _ RequestState.noConfusion

/-! ### The end of a stream -/

theorem finish (s : Streams) (p : PubID) (ended : StreamEnded) : Calm s (s.finish p ended) := by
  rw [Streams.finish]
  split
  · exact refl s
  · exact (modifyPub s p rfl).queued rfl

theorem closeRequests (s : Streams) (p : PubID) (ended : StreamEnded) (rs : List RequestID) :
    Calm s (s.closeRequests p ended rs) := by
  cases rs with
  | nil => exact (modifyPub s p rfl).queued rfl
  | cons r rs =>
    refine then_ ?_ rfl
    exact closeRequest s r RequestState.noConfusion

theorem endPeers (s : Streams) (p : PubID) (ended : StreamEnded) (qs : List PeerID) :
    Calm s (s.endPeers p ended qs) := by
  cases qs with
  | nil => exact (modifyPub s p rfl).told
  | cons q qs => exact of_frame rfl (by simp [Streams.endPeers, Op.isSetup])

/-- A stream that is known of has stopped. -/
theorem stopped_known (h : Calm s (t, [])) {id : Str} (hknown : s.Known id) :
    Calm s ({ t with stopped := renew maxStopped id t.stopped }, []) :=
  { h with
    stopped := fun id' hmem => by
      rcases mem_of_mem_renew hmem with rfl | hmem
      · exact Or.inr (Or.inr hknown)
      · exact h.stopped id' hmem }

theorem endStream (h : Calm s (t, [])) (id : Str) {cause : EndCause} (reason : Nat)
    (hknown : cause ≠ .gone → s.Known id) : Calm s (t.endStream id cause reason) := by
  obtain ⟨u, hu⟩ : ∃ u, u = (if cause = .gone then t
    else { t with stopped := renew maxStopped id t.stopped }) := ⟨_, rfl⟩
  have hu' : Calm s (u, []) := by
    rw [hu]
    split
    · exact h
    · exact h.stopped_known (hknown ‹_›)
  have hops : ∀ op ∈ ((u.published.get? id).map fun p => Op.finish p ⟨cause, reason⟩).toList ++
      [.endWatch id (u.infos.get? id) cause reason], op.isSetup = false := by
    refine List.forall_mem_append.mpr ⟨fun op hop => ?_, List.forall_mem_singleton.mpr rfl⟩
    obtain ⟨p, -, rfl⟩ := Option.map_eq_some_iff.mp (Option.mem_toList.mp hop)
    rfl
  have hless := hu'.after (unpublish u id)
  rw [Streams.endStream]
  dsimp only
  rw [← hu]
  split
  · rename_i hinfo
    rw [hinfo] at hops ⊢
    exact hless.after (of_frame rfl hops)
  · rename_i info hinfo
    rw [hinfo] at hops ⊢
    split
    · exact hless.after (of_frame rfl hops)
    · exact hless.after (of_frame rfl hops)

theorem rejectSettled (s : Streams) (w : WatchID) (failure : Failure) :
    Calm s (s.rejectSettled w failure, []) := modifyWatch s w _

theorem endWatch (s : Streams) (id : Str) (info : Option StreamInfo) (cause : EndCause)
    (reason : Nat) : Calm s (s.endWatch id info cause reason) := by
  rw [Streams.endWatch]
  split
  · exact of_frame rfl (List.forall_mem_singleton.mpr rfl)
  dsimp only
  split
  · exact (unwatch s id).follow (by simp [Op.isSetup])
  · exact ((unwatch s id).after (rejectSettled _ _ _)).follow (List.forall_mem_singleton.mpr rfl)

theorem stoppedEvent (s : Streams) (info : Option StreamInfo) (cause : EndCause) (reason : Nat) :
    Calm s (s.stoppedEvent info cause reason) := by
  cases info with
  | none => exact refl s
  | some info => exact (emit s rfl).told

theorem closeWatch (s : Streams) (w : WatchID) (gone : Failure) (cause : PeerCloseCause) :
    Calm s (s.closeWatch w gone cause) := by
  rw [Streams.closeWatch]
  split
  · exact of_frame rfl (List.forall_mem_singleton.mpr rfl)
  · exact rejectSettled s w gone

theorem endGone (s : Streams) (clid : ClientID) (ids : List Str) : Calm s (s.endGone clid ids) := by
  cases ids with
  | nil => exact refl s
  | cons id ids =>
    rw [Streams.endGone]
    split
    · refine then_ ?_ rfl
      exact (refl s).endStream id 0 fun hne => absurd rfl hne
    · exact of_frame rfl (List.forall_mem_singleton.mpr rfl)

theorem leaveStreams (s : Streams) (clid : ClientID) (ps : List PubID) :
    Calm s (s.leaveStreams clid ps) := by
  cases ps with
  | nil => exact refl s
  | cons p ps =>
    rw [Streams.leaveStreams]
    split
    · exact of_frame rfl (by simp [Op.isSetup])
    · exact of_frame rfl (by simp [Op.isSetup])

theorem viewerLeft (s : Streams) (id : Str) (clid : ClientID) : Calm s (s.viewerLeft id clid) := by
  rw [Streams.viewerLeft]
  split
  · exact refl s
  · exact (emit s rfl).told

/-! ### Calls of `watch` -/

theorem giveUpWatch (s : Streams) (w : WatchID) (failure : Failure) :
    Calm s (s.giveUpWatch w failure, []) := by
  rw [Streams.giveUpWatch]
  split
  · exact refl s
  · exact modifyWatch s w _

theorem joined (s : Streams) (w : WatchID) (result : Except Failure Unit) :
    Calm s (s.joined w result, []) := by
  rw [Streams.joined]
  split
  · exact refl s
  · exact modifyWatch s w _

theorem answerWatch (s : Streams) (w : WatchID) (result : Except Failure PeerID) :
    Calm s (s.answerWatch w result, []) := modifyWatch s w _

theorem heardWatch (s : Streams) (w : WatchID) : Calm s (s.heardWatch w, []) := by
  rw [Streams.heardWatch]
  split
  · exact answerWatch s w _
  · exact modifyWatch s w _
  · exact answerWatch s w _
  · exact answerWatch s w _
  · exact refl s

theorem caught (s : Streams) (w : WatchID) : Calm s (s.caught w) := by
  rw [Streams.caught]
  dsimp only
  split
  swap
  · exact refl s
  split
  · split
    · exact answerWatch s w _
    · split
      · exact answerWatch s w _
      · exact modifyWatch s w _
  · have hless := unwatch s (s.watches w).id
    split
    · refine then_ ?_ rfl
      exact hless.endStream _ 0 fun hne => absurd rfl hne
    · split
      · exact (hless.after (bestEffort _ _)).after (answerWatch _ w _)
      · exact hless.after (answerWatch _ w _)

theorem stop (s : Streams) {p : PubID} (hp : p < s.nextPub) (reason : Nat) :
    Calm s (s.stop p reason, []) := by
  rw [Streams.stop]
  split
  · exact refl s
  · exact
      { send s _ with
        jobs := fun p' reason' hmem => by
          rcases List.mem_append.mp hmem with hmem | hmem
          · exact Or.inr ⟨reason', hmem⟩
          · rw [(Job.stop.inj (List.mem_singleton.mp hmem)).1]
            exact Or.inl hp }

/-! ### What the client delivers -/

theorem learn (s : Streams) (info : StreamInfo) : Calm s (s.learn info) := by
  rw [Streams.learn]
  split
  · exact refl s
  have hlearnt : Calm s ({ s with infos := s.infos.set info.id info }, []) := quiet rfl
  dsimp only
  split
  · exact (hlearnt.after (emit _ rfl)).told
  · split
    · exact hlearnt
    · exact (hlearnt.after (emit _ rfl)).told

theorem discover (s : Streams) (clid : ClientID) : Calm s (s.discover clid, []) := by
  rw [Streams.discover]
  split
  · exact refl s
  · have hasked : Calm s ({ s with asked := s.asked ++ [clid] }, []) := quiet rfl
    exact hasked.after (request _ _ _ rfl)

theorem streaming (s : Streams) (clid : ClientID) (isStreaming : Option Bool) :
    Calm s (s.streaming clid isStreaming, []) := by
  rcases isStreaming with _ | _ | _
  · exact refl s
  · rw [Streams.streaming, Streams.forget]
    dsimp only
    split_ifs
    · exact quiet rfl
    · exact quiet rfl
    · exact quiet rfl
  · have hless : Calm s (s.cancelGone clid, []) := quiet rfl
    exact hless.after (discover _ clid)

theorem gone (s : Streams) (clid : ClientID) : Calm s (s.gone clid) := by
  rw [Streams.gone]
  split
  · exact of_frame rfl (List.forall_mem_singleton.mpr rfl)
  · exact refl s

theorem onInfo (s : Streams) (params : Params) : Calm s (s.onInfo params) := by
  rw [Streams.onInfo]
  split
  · exact refl s
  · exact learn s _

theorem onJoinRequest (s : Streams) (params : Params) : Calm s (s.onJoinRequest params) := by
  rw [Streams.onJoinRequest]
  split
  · exact refl s
  split
  · exact refl s
  split
  · exact of_frame rfl (by simp [Streams.viewerGone, Op.isSetup])
  · exact requestViewer s _ _ _

theorem openView (s : Streams) (w : WatchID) : Calm s (s.openView w, []) :=
  (newPeer s _).after (quiet rfl)

theorem onRespond (s : Streams) (params : Params) : Calm s (s.onRespond params, []) := by
  rw [Streams.onRespond]
  dsimp only
  split
  · exact refl s
  split
  · exact refl s
  have hless := unwatch s ((params.get? (.of "id")).getD [])
  split
  · exact hless.after (rejectSettled _ _ _)
  split
  · exact (hless.after (rejectSettled _ _ _)).after (bestEffort _ _)
  · exact openView s _

theorem keepEarly (s : Streams) (w : WatchID) (json : Str) : Calm s (s.keepEarly w json) := by
  rw [Streams.keepEarly]
  dsimp only
  split
  · split
    · exact quiet rfl
    · refine told (after (modifyWatch s w _) (emit _ ?_))
      rfl
  · exact quiet rfl

theorem signalView (s : Streams) (id json : Str) : Calm s (s.signalView id json) := by
  rw [Streams.signalView]
  split
  · split
    · exact deliver s _ json
    · exact keepEarly s _ json
  · split
    · exact refl s
    · exact (emit s rfl).told

theorem onSignaling (s : Streams) (params : Params) : Calm s (s.onSignaling params) := by
  rw [Streams.onSignaling]
  split
  · exact signalView s _ _
  · split
    · exact deliver s _ _
    · split
      · exact refl s
      · exact signalView s _ _

theorem onClientJoined (s : Streams) (params : Params) : Calm s (s.onClientJoined params) := by
  rw [Streams.onClientJoined]
  split
  · exact refl s
  · split
    · exact refl s
    · exact (emit s rfl).told

theorem onClientLeft (s : Streams) (params : Params) : Calm s (s.onClientLeft params) := by
  rw [Streams.onClientLeft]
  split
  · exact refl s
  · refine of_frame rfl ?_
    cases s.published.get? ((params.get? (.of "id")).getD []) with
    | none => simp [Op.isSetup]
    | some p => simp [Op.isSetup, Streams.viewerGone]

theorem onStopped (s : Streams) (params : Params) : Calm s (s.onStopped params) := by
  rw [Streams.onStopped]
  generalize (params.get? (.of "id")).getD [] = id
  dsimp only
  split
  · exact refl s
  · have hnoted : Calm s (s.emit (.stopReported id), []) := emit s rfl
    refine then_ ?_ rfl
    exact hnoted.after ((refl _).endStream id (reasonOf params) fun _ =>
      Or.inl (List.mem_append_right _ List.mem_cons_self))

theorem onNotification (s : Streams) (name : Str) (params : Params) :
    Calm s (s.onNotification name params) := by
  rw [Streams.onNotification]
  split_ifs
  · exact onInfo s params
  · exact onInfo s params
  · exact onJoinRequest s params
  · exact onRespond s params
  · exact onSignaling s params
  · exact onClientJoined s params
  · exact onClientLeft s params
  · exact onStopped s params
  · exact refl s

theorem report (s : Streams) (failure : Failure) : Calm s (s.report failure) := by
  rw [Streams.report]
  split
  · exact refl s
  · exact (emit s rfl).told

theorem answered (s : Streams) (job : Job) (result : Except Failure Unit) :
    Calm s (s.answered job result) := by
  rw [Streams.answered]
  split
  · exact refl s
  rename_i hjob
  rw [not_not] at hjob
  let done : Streams := { s with jobs := s.jobs.erase job }
  have hdone : Calm s (done, []) :=
    { refl s with jobs := fun p reason hmem => Or.inr ⟨reason, List.mem_of_mem_erase hmem⟩ }
  have hfailed : ∀ r, Calm s
      (done.modifyRequest r fun request => { request with state := .failed }, []) :=
    fun r => hdone.after (answer done r .failed nofun)
  have hended : ∀ p reason, Job.stop p reason ∈ s.jobs →
      Calm s (done.endStream (s.pubs p).id .stopped reason) := fun p reason hmem =>
    hdone.endStream _ reason fun _ => Or.inr (Or.inr ⟨p, Or.inr ⟨reason, hmem⟩, rfl⟩)
  dsimp only
  split
  · exact hdone
  · exact (hfailed _).follow (by simp [Op.isSetup])
  · exact hdone.after (rememberViewer done _)
  · exact hfailed _
  · exact hended _ _ hjob
  · split
    · exact hended _ _ hjob
    · exact hdone
  · exact hdone
  · exact hdone.after (report done _)
  · exact hdone
  · split
    · exact hdone.after (quiet rfl)
    · have hasked : ∀ clid, Calm s ({ done with asked := done.asked.erase clid }, []) :=
        fun clid => hdone.after (quiet rfl)
      exact ((hasked _).after (emit _ rfl)).told

/-! ### Resetting -/

theorem foldl {α : Type*} {f : Streams → α → Streams} (hf : ∀ t a, Calm t (f t a, []))
    (l : List α) (t : Streams) : Calm t (l.foldl f t, []) := by
  induction l generalizing t with
  | nil => exact .refl t
  | cons a l ih => exact (hf t a).after (ih (f t a))

theorem goodbyes (t : Streams) : Calm t (t.goodbyes, []) := by
  rw [Streams.goodbyes]
  split
  · exact (foldl (fun t e => .bestEffort t _) t.published.entries t).after
      (foldl (fun t e => .bestEffort t _) _ _)
  · exact .refl t

/-- `#reset` empties the maps and rejects every `publish` that waits. -/
theorem reset (s : Streams) (gone : Failure) (ended : EndCause) (cause : PeerCloseCause) :
    ∃ attempts, (∀ k, ResetOf (s.attempts k) (attempts k) ∧
        (k ∈ s.publishing → (attempts k).reset = true)) ∧
      Calm { s with attempts, publishing := [], published := .empty, watching := .empty }
        (s.reset gone ended cause) := by
  obtain ⟨attempts, hfold, hattempts⟩ := resets s gone s.publishing
  refine ⟨attempts, hattempts, ?_⟩
  have hgoodbyes := goodbyes
    { s with attempts, publishing := [], orphans := [], stopped := [] }
  rw [Streams.reset, hfold]
  exact
    { hgoodbyes with
      published := fun _ _ => id
      watching := fun _ _ => id
      stopped := fun id hmem => (hgoodbyes.stopped id hmem).imp_left fun hnil =>
        absurd hnil List.not_mem_nil
      ops := fun op hop => by
        rcases List.mem_append.mp hop with hop | hop
        · rcases List.mem_append.mp hop with hop | hop
          · rcases List.mem_append.mp hop with hop | hop
            · obtain ⟨p, -, rfl⟩ := List.mem_map.mp hop
              rfl
            · split at hop
              · rw [List.mem_singleton.mp hop]
                rfl
              · cases hop
          · obtain ⟨w, -, rfl⟩ := List.mem_map.mp hop
            rfl
        · rw [List.mem_singleton.mp hop]
          rfl }

/-! ### The steps -/

/-- The calls of `publish` and `watch`, and what ends everything. -/
def ofCall : Call → Bool
  | .publish | .giveUp _ _ | .watch _ _ | .dispose => true
  | _ => false

theorem call (s : Streams) {k : Call} (hk : ofCall k = false) : Calm s (Streams.call k s) := by
  cases k with
  | publish | giveUp | watch | dispose => cases hk
  | giveUpWatch w failure => exact giveUpWatch s w failure
  | stop p reason =>
    rw [Streams.call]
    split
    · exact stop s ‹_› reason
    · exact refl s
  | close q =>
    rw [Streams.call]
    split
    · exact closePeer s q
    · exact refl s
  | accept r offer fits =>
    rw [Streams.call]
    split
    · exact accept s r offer fits
    · exact refl s
  | deny r fits =>
    rw [Streams.call]
    split
    · exact deny s r fits
    · exact refl s
  | onSent w => exact modifyWatch s w _
  | client connected supported view => exact quiet rfl

/-- The events of the calls of `publish`, and what ends everything. -/
def ofEvent : Event → Bool
  | .setup _ _ | .heard _ | .noted _ | .disconnected => true
  | _ => false

theorem event (s : Streams) {e : Event} (he : ofEvent e = false) : Calm s (Streams.event e s) := by
  have hsubscribed : ∀ {turn : Turn}, Calm s turn → Calm s (s.subscribed turn) := by
    intro turn h
    rw [Streams.subscribed]
    split
    · exact refl s
    · exact h
  cases e with
  | setup | heard | noted | disconnected => cases he
  | notification name params => exact hsubscribed (onNotification s name params)
  | clientEnter clid isStreaming => exact hsubscribed (streaming s clid isStreaming)
  | clientUpdated clid isStreaming => exact hsubscribed (streaming s clid isStreaming)
  | clientLeave clid => exact hsubscribed (of_frame rfl (List.forall_mem_singleton.mpr rfl))
  | gone clid => exact gone s clid
  | joined w result => exact joined s w result
  | identified sl identity => exact identified s sl identity
  | answered job result => exact answered s job result
  | heardWatch w => exact heardWatch s w
  | caught w => exact caught s w

theorem exec (s : Streams) {op : Op} (hop : op.isSetup = false) : Calm s (Streams.exec op s) := by
  cases op with
  | adopted | orphaned => cases hop
  | listen | forgetDenied | forgetClosedViews | unorphan => exact quiet rfl
  | endWatch id info cause reason => exact endWatch s id info cause reason
  | stoppedEvent info cause reason => exact stoppedEvent s info cause reason
  | finish p ended => exact finish s p ended
  | closeRequests p rs ended => exact closeRequests s p ended rs
  | endPeers p qs ended => exact endPeers s p ended qs
  | endPeer q closed => exact endPeer s q closed
  | leave q => exact leave s q
  | closeWatch w gone cause => exact closeWatch s w gone cause
  | endGone clid ids => exact endGone s clid ids
  | leaveStreams clid ps => exact leaveStreams s clid ps
  | dropPending p clid => exact dropPending s p clid
  | dropRequest p clid => exact dropRequest s p clid
  | deletePending p clid => exact modifyPub s p rfl
  | advance p => exact advance s p
  | announce p => exact announce s p
  | endViewer p clid => exact endViewer s p clid
  | viewLeft id clid => exact viewLeft s id clid
  | viewerLeft id clid => exact viewerLeft s id clid
  | accepting r => exact accepting s r
  | rejectWatch w failure => exact answerWatch s w _

end Calm

end Teamspeak.Stream
