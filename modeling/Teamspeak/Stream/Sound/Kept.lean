import Teamspeak.Stream.Sound

/-!
# Every step keeps the objects as they are to be

* `Sound.light`: what leaves the objects alone.
* `Sound.onWatches`, `Sound.queued`: what concerns the watches alone, and the queues of
  requests.
* `Sound.accepted`, `Sound.adopted`, `Sound.openView`: what makes an object.
* `Sound.call`, `Sound.event`, `Sound.exec`: every step, but for the rest of `accept`, which
  must find its request pending.
-/

namespace Teamspeak.Stream

/-- The objects are left alone, and what follows does not touch them. -/
def Light (s : Streams) (turn : Turn) : Prop :=
  turn.1.toSession = s.toSession ∧ ∀ op ∈ turn.2, op.isAside = true

namespace Light

variable {s : Streams}

theorem of_eq {t : Streams} (h : t.toSession = s.toSession) : Light s (t, []) :=
  ⟨h, List.forall_mem_nil _⟩

theorem tells {t : Streams} (h : t.toSession = s.toSession) : Light s (t, [.listen]) :=
  ⟨h, List.forall_mem_singleton.mpr rfl⟩

theorem then_ {turn : Turn} {op : Op} (h : Light s turn) (hop : op.isAside = true) :
    Light s (turn.1, turn.2 ++ [op]) :=
  ⟨h.1, List.forall_mem_append.mpr ⟨h.2, List.forall_mem_singleton.mpr hop⟩⟩

theorem learn (s : Streams) (info : StreamInfo) : Light s (s.learn info) := by
  rw [Streams.learn]
  split
  · exact of_eq rfl
  dsimp only
  split
  · exact tells rfl
  · split
    · exact of_eq rfl
    · exact tells rfl

theorem onInfo (s : Streams) (params : Params) : Light s (s.onInfo params) := by
  rw [Streams.onInfo]
  split
  · exact of_eq rfl
  · exact learn s _

theorem onClientJoined (s : Streams) (params : Params) : Light s (s.onClientJoined params) := by
  rw [Streams.onClientJoined]
  split
  · exact of_eq rfl
  · split
    · exact of_eq rfl
    · exact tells rfl

theorem onClientLeft (s : Streams) (params : Params) : Light s (s.onClientLeft params) := by
  rw [Streams.onClientLeft]
  split
  · exact of_eq rfl
  · refine ⟨rfl, ?_⟩
    cases s.published.get? ((params.get? (.of "id")).getD []) with
    | none => simp [Op.isAside]
    | some p => simp [Op.isAside, Streams.viewerGone]

theorem stoppedEvent (s : Streams) (info : Option StreamInfo) (cause : EndCause) (reason : Nat) :
    Light s (s.stoppedEvent info cause reason) := by
  cases info with
  | none => exact of_eq rfl
  | some info => exact tells rfl

theorem viewerLeft (s : Streams) (id : Str) (clid : ClientID) : Light s (s.viewerLeft id clid) := by
  rw [Streams.viewerLeft]
  split
  · exact of_eq rfl
  · exact tells rfl

theorem leaveStreams (s : Streams) (clid : ClientID) (ps : List PubID) :
    Light s (s.leaveStreams clid ps) := by
  cases ps with
  | nil => exact of_eq rfl
  | cons p ps =>
    rw [Streams.leaveStreams]
    split
    · exact ⟨rfl, by simp [Op.isAside]⟩
    · exact ⟨rfl, by simp [Op.isAside]⟩

theorem gone (s : Streams) (clid : ClientID) : Light s (s.gone clid) := by
  rw [Streams.gone]
  split
  · exact ⟨rfl, List.forall_mem_singleton.mpr rfl⟩
  · exact of_eq rfl

theorem report (s : Streams) (failure : Failure) : Light s (s.report failure) := by
  rw [Streams.report]
  split
  · exact of_eq rfl
  · exact tells rfl

end Light

namespace Sound

variable {s s' : Session} {t u : Streams} {code : List Op}

theorem light (h : Sound t.toSession code) {turn : Turn} (ht : Light t turn) :
    Sound turn.1.toSession (turn.2 ++ code) := ht.1 ▸ h.aside ht.2

/-- Nothing was to follow before. -/
theorem alone {ops : List Op} (h : Sound s (ops ++ [])) : Sound s ops := by
  rwa [List.append_nil] at h

/-- What keeps the session keeps its soundness. -/
theorem of_session (h : Sound t.toSession code) (hs : u.toSession = t.toSession) :
    Sound u.toSession code := hs ▸ h

/-! ### Watches -/

/-- Only the watches are written to. -/
def OnWatches (s s' : Session) : Prop :=
  ∃ watching watches nextWatch, s' = { s with watching, watches, nextWatch }

theorem onWatches {code' : List Op} (h : Sound s code) (hsame : OnWatches s s')
    (hpubs : code'.filter Op.ofPubs = code.filter Op.ofPubs)
    (hviewers : code'.filter Op.ofViewers = code.filter Op.ofViewers)
    (haccepting : ∀ r, Op.accepting r ∈ code' → Op.accepting r ∈ code)
    (hwatches : WatchesSound s' (code'.filter Op.ofWatches)) : Sound s' code' := by
  obtain ⟨watching, watches, nextWatch, rfl⟩ := hsame
  refine ⟨?_, ?_, hwatches, h.peers, h.requests, fun r hop => h.accepting r (haccepting r hop)⟩
  · rw [hpubs]
    exact h.pubs.congr rfl rfl fun _ => .refl _
  · rw [hviewers]
    exact h.viewers.congr (fun _ => .refl _) (fun _ => .refl _) rfl (fun _ => rfl) rfl rfl rfl rfl

/-- The same, with nothing to follow. -/
theorem ofWatches (h : Sound s code) (hsame : OnWatches s s')
    (hwatches : WatchesSound s' (code.filter Op.ofWatches)) : Sound s' code :=
  h.onWatches hsame rfl rfl (fun _ hop => hop) hwatches

theorem watch (h : Sound t.toSession code) (target : Str ⊕ StreamInfo) (aborted : Bool) :
    Sound (t.watch target aborted).toSession code := by
  refine h.ofWatches ?_ (h.watches.watch target aborted)
  unfold Streams.watch
  dsimp only
  split
  · exact ⟨_, _, _, rfl⟩
  · split
    · exact ⟨_, _, _, rfl⟩
    · exact ⟨_, _, _, rfl⟩

theorem giveUpWatch (h : Sound t.toSession code) (w : WatchID) (failure : Failure) :
    Sound (t.giveUpWatch w failure).toSession code := by
  refine h.ofWatches ?_ (h.watches.giveUpWatch w failure)
  unfold Streams.giveUpWatch
  split
  · exact ⟨_, _, _, rfl⟩
  · exact ⟨_, _, _, rfl⟩

theorem onSent (h : Sound t.toSession code) (w : WatchID) :
    Sound (t.onSent w).toSession code := h.ofWatches ⟨_, _, _, rfl⟩ (h.watches.onSent w)

theorem joined (h : Sound t.toSession []) (w : WatchID) (result : Except Failure Unit) :
    Sound (t.joined w result).toSession [] := by
  refine h.ofWatches ?_ (WatchesSound.joined h.watches w result)
  unfold Streams.joined
  split
  · exact ⟨_, _, _, rfl⟩
  · exact ⟨_, _, _, rfl⟩

theorem heardWatch (h : Sound t.toSession []) (w : WatchID) :
    Sound (t.heardWatch w).toSession [] := by
  refine h.ofWatches ?_ (WatchesSound.heardWatch h.watches w)
  unfold Streams.heardWatch
  split
  · exact ⟨_, _, _, rfl⟩
  · exact ⟨_, _, _, rfl⟩
  · exact ⟨_, _, _, rfl⟩
  · exact ⟨_, _, _, rfl⟩
  · exact ⟨_, _, _, rfl⟩

theorem keepEarly (h : Sound t.toSession code) (w : WatchID) (json : Str) :
    Sound (t.keepEarly w json).1.toSession ((t.keepEarly w json).2 ++ code) := by
  have hkept : Sound (t.keepEarly w json).1.toSession code := by
    refine h.ofWatches ?_ (h.watches.keepEarly w json)
    unfold Streams.keepEarly
    dsimp only
    split
    · split
      · exact ⟨_, _, _, rfl⟩
      · exact ⟨_, _, _, rfl⟩
    · exact ⟨_, _, _, rfl⟩
  refine hkept.aside ?_
  rw [Streams.keepEarly]
  dsimp only
  split
  · split
    · exact List.forall_mem_nil _
    · exact List.forall_mem_singleton.mpr rfl
  · exact List.forall_mem_nil _

theorem rejectWatch {w : WatchID} {failure : Failure}
    (h : Sound t.toSession (.rejectWatch w failure :: code)) :
    Sound (t.answerWatch w (.error failure)).toSession code :=
  h.onWatches ⟨_, _, _, rfl⟩ rfl rfl (fun _ hop => List.mem_cons_of_mem _ hop)
    (WatchesSound.rejectWatch h.watches)

theorem caught (h : Sound t.toSession []) (w : WatchID) :
    Sound (t.caught w).1.toSession (t.caught w).2 := by
  have hwatches := WatchesSound.caught h.watches w
  unfold Streams.caught at hwatches ⊢
  dsimp only at hwatches ⊢
  split
  swap
  · exact h
  rename_i failure hcall
  rw [hcall] at hwatches
  dsimp only at hwatches
  split
  · rename_i hsettled
    rw [if_pos hsettled] at hwatches
    split
    · rename_i q hview
      rw [hview] at hwatches
      exact h.ofWatches ⟨_, _, _, rfl⟩ hwatches
    · rename_i hview
      rw [hview] at hwatches
      dsimp only at hwatches
      split
      · rename_i hended
        rw [if_pos hended] at hwatches
        exact h.ofWatches ⟨_, _, _, rfl⟩ hwatches
      · rename_i hended
        rw [if_neg hended] at hwatches
        exact h.ofWatches ⟨_, _, _, rfl⟩ hwatches
  · rename_i hsettled
    rw [if_neg hsettled] at hwatches
    split
    · have hheld : Held t.toSession w := by
        by_contra hnot
        exact hsettled (Or.inl hnot)
      have hview : (t.watches w).view = none := by
        rw [← Option.not_isSome_iff_eq_none]
        exact fun hsome => hsettled (Or.inr hsome)
      have hrefused : Sound { t.toSession with watching := t.watching.delete (t.watches w).id }
          [.rejectWatch w failure] :=
        h.onWatches ⟨_, _, _, rfl⟩ rfl rfl (fun r hop => by cases List.mem_singleton.mp hop)
          (WatchesSound.refuse h.watches hcall hheld hview)
      exact hrefused.endStream (t := { t with watching := t.watching.delete (t.watches w).id })
        (t.watches w).id .gone 0
    · rename_i hended
      rw [if_neg hended] at hwatches
      split
      · rename_i hleave
        rw [if_pos hleave] at hwatches
        exact h.ofWatches ⟨_, _, _, rfl⟩ hwatches
      · rename_i hleave
        rw [if_neg hleave] at hwatches
        exact h.ofWatches ⟨_, _, _, rfl⟩ hwatches

/-! ### Queues of requests -/

/-- Only the queues of requests, and the requests in them, are written to. -/
structure OnQueues (s s' : Session) : Prop where
  published : s'.published = s.published
  watching : s'.watching = s.watching
  peers : s'.peers = s.peers
  watches : s'.watches = s.watches
  nextPub : s'.nextPub = s.nextPub
  nextPeer : s'.nextPeer = s.nextPeer
  nextWatch : s'.nextWatch = s.nextWatch
  nextRequest : s.nextRequest ≤ s'.nextRequest
  pubs : ∀ p, (s.pubs p).Alike (s'.pubs p)
  requests : (∀ r, (s.requests r).Told) → ∀ r, (s'.requests r).Told

namespace OnQueues

theorem refl (s : Session) : OnQueues s s :=
  ⟨rfl, rfl, rfl, rfl, rfl, rfl, rfl, Nat.le_refl _, fun _ => .refl _, fun h => h⟩

theorem trans {s'' : Session} (h : OnQueues s s') (h' : OnQueues s' s'') : OnQueues s s'' where
  published := h'.published.trans h.published
  watching := h'.watching.trans h.watching
  peers := h'.peers.trans h.peers
  watches := h'.watches.trans h.watches
  nextPub := h'.nextPub.trans h.nextPub
  nextPeer := h'.nextPeer.trans h.nextPeer
  nextWatch := h'.nextWatch.trans h.nextWatch
  nextRequest := h.nextRequest.trans h'.nextRequest
  pubs p := ⟨(h'.pubs p).1.trans (h.pubs p).1, (h'.pubs p).2.1.trans (h.pubs p).2.1,
    (h'.pubs p).2.2.trans (h.pubs p).2.2⟩
  requests hs := h'.requests (h.requests hs)

theorem modifyPub (t : Streams) {p : PubID} {f : Published → Published}
    (hf : (t.pubs p).Alike (f (t.pubs p))) : OnQueues t.toSession (t.modifyPub p f).toSession :=
  ⟨rfl, rfl, rfl, rfl, rfl, rfl, rfl, Nat.le_refl _, PubsSound.alike_modifyPub t hf, fun h => h⟩

theorem modifySlot (t : Streams) (sl : SlotID) (f : Slot → Slot) :
    OnQueues t.toSession (t.modifySlot sl f).toSession :=
  ⟨rfl, rfl, rfl, rfl, rfl, rfl, rfl, Nat.le_refl _, fun _ => .refl _, fun h => h⟩

/-- A request is made, which is pending. -/
theorem newRequest (t : Streams) {request : JoinRequest} (hstate : request.state = .pending)
    (hemitted : request.emitted = []) :
    OnQueues t.toSession ({ t with nextRequest := t.nextRequest + 1 }.modifyRequest t.nextRequest
      fun _ => request).toSession where
  published := rfl
  watching := rfl
  peers := rfl
  watches := rfl
  nextPub := rfl
  nextPeer := rfl
  nextWatch := rfl
  nextRequest := Nat.le_succ _
  pubs _ := .refl _
  requests h := by
    refine told_modifyRequest (t := { t with nextRequest := t.nextRequest + 1 }) h ⟨?_, ?_, ?_⟩
    · rw [hemitted]
      exact Nat.zero_le 1
    · exact fun _ => hemitted
    · rw [hstate]
      exact fun hover => absurd hover Bool.false_ne_true

theorem announceSlot (t : Streams) (p : PubID) (slot : Slot) (identity : Identity) :
    OnQueues t.toSession (t.announceSlot p slot identity).1.toSession := by
  have hless : OnQueues t.toSession (t.modifyPub p fun pub =>
      { pub with resolving := pub.resolving.delete slot.clientId }).toSession :=
    modifyPub t ⟨rfl, rfl, rfl⟩
  rw [Streams.announceSlot]
  dsimp only
  split
  · exact hless
  · refine hless.trans (trans (newRequest _ rfl rfl) (modifyPub _ ⟨rfl, rfl, ?_⟩))
    simp [Published.endings, PubEvent.isEnded]

theorem announce (t : Streams) (p : PubID) : OnQueues t.toSession (t.announce p).1.toSession := by
  rw [Streams.announce]
  split
  · exact refl _
  rename_i head rest hslots
  have hshift : OnQueues t.toSession
      (t.modifyPub p fun pub => { pub with slots := rest }).toSession :=
    modifyPub t ⟨rfl, rfl, rfl⟩
  dsimp only
  split
  · split
    · exact refl _
    · exact hshift.trans (announceSlot _ p _ _)
  · exact hshift

theorem lookUp (t : Streams) (p : PubID) (sl : SlotID) :
    OnQueues t.toSession (Streams.lookUp p t sl).toSession := by
  rw [Streams.lookUp]
  split
  · exact refl _
  split
  · exact refl _
  split
  · exact modifySlot t sl _
  · exact modifySlot t sl _

theorem advance (t : Streams) (p : PubID) : OnQueues t.toSession (t.advance p).1.toSession := by
  rw [Streams.advance]
  dsimp only
  generalize (t.pubs p).slots = slots
  induction slots generalizing t with
  | nil => exact refl _
  | cons sl slots ih => exact (lookUp t p sl).trans (ih _)

theorem requestViewer (t : Streams) (p : PubID) (c : ClientID) (message : Str) :
    OnQueues t.toSession (t.requestViewer p c message).1.toSession := by
  rw [Streams.requestViewer]
  dsimp only
  split
  · exact refl _
  split
  · exact refl _
  · have hslot : OnQueues t.toSession ({ t with nextSlot := t.nextSlot + 1 }.modifySlot t.nextSlot
        fun _ => { stream := p, clientId := c, message }).toSession :=
      ⟨rfl, rfl, rfl, rfl, rfl, rfl, rfl, Nat.le_refl _, fun _ => .refl _, fun h => h⟩
    exact hslot.trans (modifyPub _ ⟨rfl, rfl, rfl⟩)

end OnQueues

theorem onQueues (h : Sound s code) (hsame : OnQueues s s')
    (hviewers : ViewersSound s' (code.filter Op.ofViewers)) : Sound s' code where
  pubs := h.pubs.congr hsame.published hsame.nextPub hsame.pubs
  viewers := hviewers
  watches := h.watches.congr hsame.watching (fun _ => hsame.watches ▸ .refl _)
    (fun _ => hsame.peers ▸ .refl _) hsame.nextWatch hsame.nextPeer
  peers q := hsame.peers ▸ h.peers q
  requests := hsame.requests h.requests
  accepting r hop := (h.accepting r hop).trans_le hsame.nextRequest

theorem announce (h : Sound t.toSession code) (p : PubID) :
    Sound (t.announce p).1.toSession ((t.announce p).2 ++ code) := by
  refine (h.onQueues (.announce t p) (h.viewers.announce p)).aside ?_
  rw [Streams.announce]
  split
  · exact List.forall_mem_nil _
  dsimp only
  split
  · split
    · exact List.forall_mem_nil _
    · rw [Streams.announceSlot]
      dsimp only
      split
      · simp [Op.isAside]
      · simp [Op.isAside]
  · simp [Op.isAside]

theorem advance (h : Sound t.toSession code) (p : PubID) :
    Sound (t.advance p).1.toSession ((t.advance p).2 ++ code) :=
  (h.onQueues (.advance t p) (h.viewers.advance p)).aside (List.forall_mem_singleton.mpr rfl)

theorem requestViewer (h : Sound t.toSession []) {p : PubID} (hp : p < t.nextPub) (c : ClientID)
    (message : Str) :
    Sound (t.requestViewer p c message).1.toSession (t.requestViewer p c message).2 := by
  have hmade := h.onQueues (.requestViewer t p c message)
    (ViewersSound.requestViewer h.viewers hp message)
  refine alone (hmade.aside ?_)
  rw [Streams.requestViewer]
  dsimp only
  split
  · exact List.forall_mem_nil _
  split
  · exact List.forall_mem_nil _
  · exact List.forall_mem_singleton.mpr rfl

theorem identified (h : Sound t.toSession code) (sl : SlotID) (identity : Identity) :
    Sound (t.identified sl identity).1.toSession ((t.identified sl identity).2 ++ code) := by
  rw [Streams.identified]
  split
  · exact (h.onQueues (.modifySlot t sl _) (h.viewers.modifySlot rfl)).aside
      (List.forall_mem_singleton.mpr rfl)
  · exact h

/-! ### Requests -/

/-- A request is answered, or its answer fails. -/
theorem settle (h : Sound t.toSession code) (r : RequestID) (state : RequestState)
    (hpending : state ≠ .pending) (hover : state.isOver = false) :
    Sound (t.modifyRequest r fun request => { request with state }).toSession code where
  pubs := h.pubs.congr rfl rfl fun _ => .refl _
  viewers := h.viewers.settle rfl rfl hpending fun heq => absurd (heq.symm.trans hover) nofun
  watches := h.watches.congr rfl (fun _ => .refl _) (fun _ => .refl _) rfl rfl
  peers := h.peers
  requests := told_modifyRequest h.requests (told_answered (h.requests r) hpending hover)
  accepting := h.accepting

theorem deny (h : Sound t.toSession code) (r : RequestID) (fits : Bool) :
    Sound (t.deny r fits).toSession code := by
  rw [Streams.deny]
  split
  · exact h
  · exact h.settle r .denied nofun rfl

theorem push_accepting (h : Sound s code) {r : RequestID} (hr : r < s.nextRequest) :
    Sound s (.accepting r :: code) where
  pubs := h.pubs
  viewers := h.viewers
  watches := h.watches
  peers := h.peers
  requests := h.requests
  accepting r' hop := by
    rcases List.mem_cons.mp hop with heq | hop
    · rw [Op.accepting.inj heq]
      exact hr
    · exact h.accepting r' hop

theorem accept (h : Sound t.toSession code) {r : RequestID} (hr : r < t.nextRequest) (offer : Str)
    (fits : Bool) : Sound (t.accept r offer fits).1.toSession ((t.accept r offer fits).2 ++ code) := by
  rw [Streams.accept]
  split
  · exact h
  split
  · exact h.push_accepting hr
  · exact (h.push_accepting hr).push_aside rfl

theorem pubs_openViewer (h : PubsSound t.toSession code) (p : PubID) (c : ClientID) :
    PubsSound (t.openViewer p c).toSession code := by
  rw [Streams.openViewer]
  refine PubsSound.modifyPub ?_ ?_
  · exact h.congr rfl rfl fun _ => .refl _
  · exact ⟨rfl, rfl, rfl⟩

/-- The rest of `accept`: the viewer has a peer. -/
theorem accepted {r : RequestID} (h : Sound t.toSession (.accepting r :: code))
    (hstate : (t.requests r).state = .pending) : Sound (t.accepting r).toSession code := by
  have hold : ∀ q < t.nextPeer, (t.accepting r).peers q = t.peers q :=
    fun q hq => if_neg (Nat.ne_of_lt hq)
  have hnew : (t.accepting r).peers t.nextPeer =
      { streamId := (t.pubs (t.requests r).stream).id, clientId := (t.requests r).clientId
        owner := .viewer (t.requests r).stream } := if_pos rfl
  have hrest : Sound t.toSession code := ⟨h.pubs, h.viewers, h.watches, h.peers, h.requests,
    fun r' hop => h.accepting r' (List.mem_cons_of_mem _ hop)⟩
  have haccepted : Sound
      (t.modifyRequest r fun request => { request with state := .accepted }).toSession code :=
    hrest.settle r .accepted nofun rfl
  constructor
  · exact pubs_openViewer haccepted.pubs _ _
  · exact ViewersSound.accepting h.viewers (h.accepting r List.mem_cons_self) hstate
  · refine h.watches.extend rfl (fun _ => .refl _) (fun q hq => ?_) (fun q hq hle w => ?_) rfl
      (Nat.le_succ _)
    · rw [hold q hq]
      exact .refl _
    · obtain rfl : q = t.nextPeer := Nat.le_antisymm (Nat.le_of_lt_succ hq) hle
      rw [hnew]
      nofun
  · intro q
    by_cases hq : q = t.nextPeer
    · rw [hq, hnew]
      exact ⟨[], ⟨.closed, none⟩, rfl⟩
    · rw [show (t.accepting r).peers q = t.peers q from if_neg hq]
      exact h.peers q
  · exact haccepted.requests
  · exact haccepted.accepting

/-! ### Streams and views -/

theorem adopted (h : Sound t.toSession code) (k : CallID) (info : StreamInfo) :
    Sound (t.adopted k info).toSession code := by
  unfold Streams.adopted
  dsimp only
  split
  · exact h
  rename_i hnone
  have hnew : ∀ j, j ≠ t.nextPub → (if j = t.nextPub then ({ id := info.id } : Published)
      else t.pubs j) = t.pubs j := fun j hj => if_neg hj
  exact ⟨h.pubs.adopted hnone (if_pos rfl) hnew, h.viewers.adopted (if_pos rfl) hnew,
    h.watches.congr rfl (fun _ => .refl _) (fun _ => .refl _) rfl rfl, h.peers, h.requests,
    h.accepting⟩

theorem setupInfo (h : Sound t.toSession []) (k : CallID) (info : Option StreamInfo) :
    Sound (t.setupInfo k info).1.toSession (t.setupInfo k info).2 := by
  cases info with
  | none =>
    rw [Streams.setupInfo]
    split
    · exact h
    · exact h
  | some info =>
    rw [Streams.setupInfo]
    dsimp only
    split
    · split
      · exact h
      · exact h
    split
    · have hlast : Sound t.toSession [.orphaned k info.id] :=
        h.push_aside rfl
      exact hlast.endStream (t := { t.emit (.announced k info.id t.connected) with
        orphans := remember maxOrphans info.id t.orphans }) info.id .stopped 0
    split
    · exact h
    · exact alone (h.light (t := t.emit (.announced k info.id t.connected))
        ((Light.learn _ info).then_ rfl))

theorem setup (h : Sound t.toSession []) (k : CallID) (result : Except Failure (List Params)) :
    Sound (t.setup k result).1.toSession (t.setup k result).2 := by
  rw [Streams.setup]
  split
  · exact h
  cases result with
  | error failure => exact h
  | ok rows =>
    exact Sound.setupInfo (t := t.modifyAttempt k fun attempt => { attempt with sending := false })
      h k _

theorem onRespond (h : Sound t.toSession []) (params : Params) :
    Sound (t.onRespond params).toSession [] := by
  have hwatches := WatchesSound.onRespond h.watches params
  rw [Streams.onRespond] at hwatches ⊢
  dsimp only at hwatches ⊢
  split
  · exact h
  rename_i w hget
  rw [hget] at hwatches
  dsimp only at hwatches
  split
  · exact h
  rename_i hview
  rw [if_neg hview] at hwatches
  split
  · rename_i hdenied
    rw [if_pos hdenied] at hwatches
    exact h.ofWatches ⟨_, _, _, rfl⟩ hwatches
  rename_i hgranted
  rw [if_neg hgranted] at hwatches
  split
  · rename_i hoffer
    rw [if_pos hoffer] at hwatches
    exact h.ofWatches ⟨_, _, _, rfl⟩ hwatches
  rename_i hoffer
  rw [if_neg hoffer] at hwatches
  refine ⟨h.pubs.congr rfl rfl fun _ => .refl _, ViewersSound.openView h.viewers w, hwatches, ?_,
    h.requests, fun r hop => absurd hop List.not_mem_nil⟩
  intro q
  by_cases hq : q = t.nextPeer
  · have hnew : (t.openView w).peers t.nextPeer =
        { streamId := (t.watches w).id, clientId := (t.watches w).streamer, owner := .view w
          emitted := (t.watches w).early.map PeerEvent.signal } := if_pos rfl
    rw [hq, hnew]
    exact ⟨(t.watches w).early, ⟨.closed, none⟩, (List.append_nil _).symm⟩
  · rw [show (t.openView w).peers q = t.peers q from if_neg hq]
    exact h.peers q

theorem signalView (h : Sound t.toSession code) (id json : Str) :
    Sound (t.signalView id json).1.toSession ((t.signalView id json).2 ++ code) := by
  rw [Streams.signalView]
  split
  · split
    · exact h.deliver _ json
    · exact h.keepEarly _ json
  · split
    · exact h
    · exact h.light (.tells rfl)

theorem onSignaling (h : Sound t.toSession code) (params : Params) :
    Sound (t.onSignaling params).1.toSession ((t.onSignaling params).2 ++ code) := by
  rw [Streams.onSignaling]
  split
  · exact h.signalView _ _
  · split
    · exact h.deliver _ _
    · split
      · exact h
      · exact h.signalView _ _

theorem onJoinRequest (h : Sound t.toSession []) (params : Params) :
    Sound (t.onJoinRequest params).1.toSession (t.onJoinRequest params).2 := by
  rw [Streams.onJoinRequest]
  split
  · exact h
  rename_i p hget
  split
  · exact h
  split
  · exact (h.push_aside rfl).push_aside rfl
  · exact h.requestViewer (h.pubs.held _ p hget).1 _ _

theorem onStopped (h : Sound t.toSession []) (params : Params) :
    Sound (t.onStopped params).1.toSession (t.onStopped params).2 := by
  rw [Streams.onStopped]
  split
  · exact h
  · have hlast : Sound t.toSession [.unorphan ((params.get? (.of "id")).getD [])] :=
      h.push_aside rfl
    exact hlast.endStream (t := t.emit (.stopReported _)) _ .server (reasonOf params)

theorem endGone (h : Sound t.toSession code) (clid : ClientID) (ids : List Str) :
    Sound (t.endGone clid ids).1.toSession ((t.endGone clid ids).2 ++ code) := by
  cases ids with
  | nil => exact h
  | cons id ids =>
    rw [Streams.endGone]
    split
    · have hmore : Sound t.toSession (.endGone clid ids :: code) :=
        h.push_aside rfl
      have hended := hmore.endStream id .gone 0
      rwa [← List.singleton_append, ← List.append_assoc] at hended
    · exact h.push_aside rfl

/-! ### Peers -/

theorem endViewer (h : Sound t.toSession code) (p : PubID) (clid : ClientID) :
    Sound (t.endViewer p clid).1.toSession ((t.endViewer p clid).2 ++ code) := by
  rw [Streams.endViewer]
  split
  · exact h
  · exact h.push_endPeer _ _

theorem viewLeft (h : Sound t.toSession code) (id : Str) (clid : ClientID) :
    Sound (t.viewLeft id clid).1.toSession ((t.viewLeft id clid).2 ++ code) := by
  rw [Streams.viewLeft]
  split
  · exact h
  · split
    · exact h.push_endPeer _ _
    · exact h

theorem closePeer (h : Sound t.toSession code) (q : PeerID) :
    Sound (t.closePeer q).1.toSession ((t.closePeer q).2 ++ code) := by
  rw [Streams.closePeer]
  split
  · exact h
  · have hleave : Sound t.toSession (.leave q :: code) :=
      h.push_aside rfl
    exact hleave.push_endPeer q _

theorem leave (h : Sound t.toSession code) (q : PeerID) : Sound (t.leave q).toSession code := by
  rw [Streams.leave]
  split
  · exact h
  · exact h

theorem dispose (h : Sound t.toSession code) :
    Sound t.dispose.1.toSession (t.dispose.2 ++ code) := by
  rw [Streams.dispose]
  split
  · exact h
  · exact Sound.reset (t := { t with disposed := true }) h _ _ _

theorem answered (h : Sound t.toSession []) (job : Job) (result : Except Failure Unit) :
    Sound (t.answered job result).1.toSession (t.answered job result).2 := by
  rw [Streams.answered]
  split
  · exact h
  let done : Streams := { t with jobs := t.jobs.erase job }
  have hended : ∀ id reason, Sound (done.endStream id .stopped reason).1.toSession
      (done.endStream id .stopped reason).2 :=
    fun id reason => alone (Sound.endStream (t := done) h id .stopped reason)
  have hfailed : ∀ r, Sound
      (done.modifyRequest r fun request => { request with state := .failed }).toSession [] :=
    fun r => Sound.settle (t := done) h r .failed nofun rfl
  have hlight : ∀ {turn : Turn}, Light done turn → Sound turn.1.toSession turn.2 :=
    fun hturn => alone (Sound.light (t := done) h hturn)
  dsimp only
  split
  · exact h
  · exact (hfailed _).push_endPeer _ _
  · refine hlight (.of_eq ?_)
    rw [Streams.rememberViewer]
    split
    · rfl
    · split
      · rfl
      · rfl
  · exact hfailed _
  · exact hended _ _
  · split
    · exact hended _ _
    · exact h
  · exact h
  · exact hlight (.report done _)
  · exact h
  · split
    · exact h
    · exact hlight (.tells rfl)

/-! ### Every step -/

theorem call (h : Sound t.toSession code) (k : Call) :
    Sound (Streams.call k t).1.toSession ((Streams.call k t).2 ++ code) := by
  cases k with
  | publish =>
    refine h.light (.of_eq ?_)
    rw [Streams.publish]
    split
    · rfl
    · rfl
  | giveUp k failure =>
    rw [Streams.call]
    split
    · exact h
    · exact h
  | watch target aborted => exact h.watch target aborted
  | giveUpWatch w failure => exact h.giveUpWatch w failure
  | stop p reason =>
    rw [Streams.call]
    split
    · refine h.light (.of_eq ?_)
      rw [Streams.stop]
      split
      · rfl
      · rfl
    · exact h
  | close q =>
    rw [Streams.call]
    split
    · exact h.closePeer q
    · exact h
  | accept r offer fits =>
    rw [Streams.call]
    split
    · rename_i hr
      exact h.accept hr offer fits
    · exact h
  | deny r fits =>
    rw [Streams.call]
    split
    · exact h.deny r fits
    · exact h
  | dispose => exact h.dispose
  | onSent w => exact h.onSent w
  | client connected supported view => exact h

theorem onNotification (h : Sound t.toSession []) (name : Str) (params : Params) :
    Sound (t.onNotification name params).1.toSession (t.onNotification name params).2 := by
  have hlight : ∀ {turn : Turn}, Light t turn → Sound turn.1.toSession turn.2 :=
    fun hturn => alone (h.light hturn)
  rw [Streams.onNotification]
  split_ifs
  · exact hlight (.onInfo t params)
  · exact hlight (.onInfo t params)
  · exact h.onJoinRequest params
  · exact h.onRespond params
  · exact alone (h.onSignaling params)
  · exact hlight (.onClientJoined t params)
  · exact hlight (.onClientLeft t params)
  · exact h.onStopped params
  · exact h

theorem event (h : Sound t.toSession []) (e : Event) :
    Sound (Streams.event e t).1.toSession (Streams.event e t).2 := by
  have hsubscribed : ∀ {turn : Turn}, Sound turn.1.toSession turn.2 →
      Sound (t.subscribed turn).1.toSession (t.subscribed turn).2 := by
    intro turn hturn
    rw [Streams.subscribed]
    split
    · exact h
    · exact hturn
  have hstreaming : ∀ clid isStreaming, Sound (t.streaming clid isStreaming).toSession [] := by
    intro clid isStreaming
    refine h.of_session ?_
    rcases isStreaming with _ | _ | _
    · rfl
    · rw [Streams.streaming, Streams.forget]
      dsimp only
      split_ifs
      · rfl
      · rfl
      · rfl
    · rw [Streams.streaming, Streams.discover]
      split
      · rfl
      · rfl
  cases e with
  | notification name params => exact hsubscribed (h.onNotification name params)
  | clientEnter clid isStreaming => exact hsubscribed (hstreaming clid isStreaming)
  | clientUpdated clid isStreaming => exact hsubscribed (hstreaming clid isStreaming)
  | clientLeave clid => exact hsubscribed (h.push_aside rfl)
  | disconnected =>
    exact hsubscribed (alone (h.reset .notConnected .disconnected .disconnected))
  | gone clid => exact alone (h.light (.gone t clid))
  | setup k result => exact h.setup k result
  | joined w result => exact h.joined w result
  | identified sl identity => exact alone (h.identified sl identity)
  | answered job result => exact h.answered job result
  | heard k => exact h
  | noted k =>
    refine h.of_session ?_
    change (t.noted k).toSession = _
    rw [Streams.noted]
    split
    · rfl
    · rfl
  | heardWatch w => exact h.heardWatch w
  | caught w => exact h.caught w

/-- An operation; the rest of `accept` must find its request pending. -/
theorem exec {op : Op} (h : Sound t.toSession (op :: code))
    (hpending : ∀ r, op = .accepting r → (t.requests r).state = .pending) :
    Sound (Streams.exec op t).1.toSession ((Streams.exec op t).2 ++ code) := by
  cases op with
  | finish p ended => exact h.finish
  | closeRequests p rs ended => exact h.closeRequests
  | endPeers p qs ended => exact h.endPeers
  | endPeer q closed => exact h.endPeer
  | endWatch id info cause reason => exact h.endWatch
  | closeWatch w gone cause => exact h.closeWatch
  | dropPending p clid => exact h.dropPending
  | dropRequest p clid => exact h.dropRequest
  | deletePending p clid => exact h.deletePending
  | rejectWatch w failure => exact h.rejectWatch
  | accepting r => exact h.accepted (hpending r rfl)
  | listen | orphaned | forgetDenied | forgetClosedViews | unorphan => exact h.tail rfl
  | adopted k info => exact (h.tail rfl).adopted k info
  | stoppedEvent info cause reason => exact (h.tail rfl).light (.stoppedEvent t info cause reason)
  | leave q => exact (h.tail rfl).leave q
  | endGone clid ids => exact (h.tail rfl).endGone clid ids
  | leaveStreams clid ps => exact (h.tail rfl).light (.leaveStreams t clid ps)
  | advance p => exact (h.tail rfl).advance p
  | announce p => exact (h.tail rfl).announce p
  | endViewer p clid => exact (h.tail rfl).endViewer p clid
  | viewLeft id clid => exact (h.tail rfl).viewLeft id clid
  | viewerLeft id clid => exact (h.tail rfl).light (.viewerLeft t id clid)

end Sound

end Teamspeak.Stream
