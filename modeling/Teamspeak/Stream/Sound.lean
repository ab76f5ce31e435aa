import Teamspeak.Stream.Admission
import Teamspeak.Stream.Calls

/-!
# What every run of the Streams keeps

* `Sound`: the published streams, their viewers and the watches are as they are to be, for
  what is left to do; peers and requests have told what became of them, once.
* `Sound.aside`, `Sound.tail`: operations that do not touch the objects.
* `Sound.endStream`, `Sound.reset`: what ends streams.
-/

namespace Teamspeak.Stream

/-- A peer tells of signals, and once it has closed of its end, which is the last. -/
def Peer.Told (peer : Peer) : Prop :=
  ∃ (signals : List Str) (closed : PeerClosed),
    peer.emitted = signals.map PeerEvent.signal ++ if peer.closed then [.closed closed] else []

/-- A request tells of its end, if it has not been answered. -/
def JoinRequest.Told (request : JoinRequest) : Prop :=
  request.emitted.length ≤ 1 ∧ (request.state = .pending → request.emitted = []) ∧
    (request.state.isOver = true → request.emitted = [request.state])

/-- The operations that do not touch the objects. -/
def Op.isAside : Op → Bool
  | .finish _ _ | .closeRequests _ _ _ | .endPeers _ _ _ | .endPeer _ _ | .dropRequest _ _
  | .deletePending _ _ | .closeWatch _ _ _ | .rejectWatch _ _ | .accepting _ => false
  | _ => true

structure Sound (s : Session) (code : List Op) : Prop where
  pubs : PubsSound s (code.filter Op.ofPubs)
  viewers : ViewersSound s (code.filter Op.ofViewers)
  watches : WatchesSound s (code.filter Op.ofWatches)
  peers : ∀ q, (s.peers q).Told
  requests : ∀ r, (s.requests r).Told
  accepting : ∀ r, Op.accepting r ∈ code → r < s.nextRequest

namespace Sound

variable {s : Session} {t : Streams} {op : Op} {ops code : List Op}

theorem filter_aside {f : Op → Bool} (hf : ∀ op, f op = true → op.isAside = false)
    (hops : ∀ op ∈ ops, op.isAside = true) : ops.filter f = [] := by
  rw [List.filter_eq_nil_iff]
  intro op hop hfop
  have haside := hops op hop
  rw [hf op hfop] at haside
  cases haside

theorem isAside_of_ofPubs (op : Op) (h : op.ofPubs = true) : op.isAside = false := by
  cases op <;> first | rfl | cases h

theorem isAside_of_ofViewers (op : Op) (h : op.ofViewers = true) : op.isAside = false := by
  cases op <;> first | rfl | cases h

theorem isAside_of_ofWatches (op : Op) (h : op.ofWatches = true) : op.isAside = false := by
  cases op <;> first | rfl | cases h

/-- Operations that do not touch the objects may follow. -/
theorem aside (h : Sound s code) (hops : ∀ op ∈ ops, op.isAside = true) :
    Sound s (ops ++ code) where
  pubs := by
    rw [List.filter_append, filter_aside isAside_of_ofPubs hops]
    exact h.pubs
  viewers := by
    rw [List.filter_append, filter_aside isAside_of_ofViewers hops]
    exact h.viewers
  watches := by
    rw [List.filter_append, filter_aside isAside_of_ofWatches hops]
    exact h.watches
  peers := h.peers
  requests := h.requests
  accepting r hop := by
    refine h.accepting r ((List.mem_append.mp hop).resolve_left fun hmem => ?_)
    cases hops _ hmem

theorem push_aside (h : Sound s code) (hop : op.isAside = true) : Sound s (op :: code) :=
  h.aside (List.forall_mem_singleton.mpr hop)

/-- An operation that does not touch the objects is done. -/
theorem tail (h : Sound s (op :: code)) (hop : op.isAside = true) : Sound s code where
  pubs := by
    have hpubs := h.pubs
    rwa [List.filter_cons_of_neg fun hf => by simp [isAside_of_ofPubs op hf] at hop] at hpubs
  viewers := by
    have hviewers := h.viewers
    rwa [List.filter_cons_of_neg fun hf => by simp [isAside_of_ofViewers op hf] at hop] at hviewers
  watches := by
    have hwatches := h.watches
    rwa [List.filter_cons_of_neg fun hf => by simp [isAside_of_ofWatches op hf] at hop] at hwatches
  peers := h.peers
  requests := h.requests
  accepting r hmem := h.accepting r (List.mem_cons_of_mem _ hmem)

/-- A peer is about to end. -/
theorem push_endPeer (h : Sound s code) (q : PeerID) (closed : PeerClosed) :
    Sound s (.endPeer q closed :: code) where
  pubs := h.pubs
  viewers := h.viewers.push_endPeer q closed
  watches := h.watches.push_endPeer q closed
  peers := h.peers
  requests := h.requests
  accepting r hop := h.accepting r ((List.mem_cons.mp hop).resolve_left nofun)

/-! ### What is told -/

theorem told_modifyPeer (h : ∀ q, (t.peers q).Told) {q : PeerID} {f : Peer → Peer}
    (hf : (f (t.peers q)).Told) (j : PeerID) : ((t.modifyPeer q f).peers j).Told := by
  rw [Streams.peers_modifyPeer]
  split
  · exact hf
  · exact h j

theorem told_modifyRequest (h : ∀ r, (t.requests r).Told) {r : RequestID}
    {f : JoinRequest → JoinRequest} (hf : (f (t.requests r)).Told) (j : RequestID) :
    ((t.modifyRequest r f).requests j).Told := by
  rw [Streams.requests_modifyRequest]
  split
  · exact hf
  · exact h j

/-- A request that is answered tells of nothing. -/
theorem told_answered {request : JoinRequest} (h : request.Told) {state : RequestState}
    (hpending : state ≠ .pending) (hover : state.isOver = false) :
    JoinRequest.Told { request with state } :=
  ⟨h.1, fun heq => absurd heq hpending, fun heq => absurd hover (by rw [heq]; nofun)⟩

theorem told_closeRequest (h : ∀ r, (t.requests r).Told) (r : RequestID) {cause : RequestState}
    (hover : cause.isOver = true) (j : RequestID) :
    ((t.closeRequest r cause).1.requests j).Told := by
  rw [Streams.closeRequest]
  split
  · exact h j
  rename_i hpending
  refine told_modifyRequest h ?_ j
  have hnone := (h r).2.1 (not_not.mp hpending)
  refine ⟨?_, fun heq => ?_, fun _ => ?_⟩
  · show ((t.requests r).emitted ++ [cause]).length ≤ 1
    rw [hnone]
    exact Nat.le_refl 1
  · rw [show cause = .pending from heq] at hover
    cases hover
  · show (t.requests r).emitted ++ [cause] = [cause]
    rw [hnone]
    rfl

theorem told_endPeer (h : ∀ q, (t.peers q).Told) (q : PeerID) (closed : PeerClosed) (j : PeerID) :
    ((t.endPeer q closed).1.peers j).Told := by
  cases hclosed : (t.peers q).closed with
  | true =>
    rw [Streams.endPeer_of_closed hclosed]
    exact h j
  | false =>
    rw [Streams.peers_endPeer hclosed]
    split
    · obtain ⟨signals, c, hemitted⟩ := h q
      refine ⟨signals, closed, ?_⟩
      rw [hclosed, if_neg Bool.false_ne_true, List.append_nil] at hemitted
      show (t.peers q).emitted ++ _ = _
      rw [hemitted]
      rfl
    · exact h j

/-! ### Peers and viewers -/

theorem deliver (h : Sound t.toSession code) (q : PeerID) (json : Str) :
    Sound (t.deliver q json).1.toSession ((t.deliver q json).2 ++ code) := by
  have hpubs := h.pubs
  have hwatches := h.watches.deliver q json
  unfold Streams.deliver at hwatches ⊢
  split
  · exact h
  rename_i hclosed
  rw [if_neg hclosed] at hwatches
  refine ⟨hpubs.congr rfl rfl fun p => .refl _, ?_, hwatches, ?_, h.requests, fun r hop => ?_⟩
  · exact h.viewers.congr (fun p => .refl _) (samePeer_modifyPeer t ⟨rfl, rfl, rfl⟩) rfl
      (fun _ => rfl) rfl rfl rfl rfl
  · refine told_modifyPeer h.peers ?_
    obtain ⟨signals, closed, hemitted⟩ := h.peers q
    rw [if_neg hclosed, List.append_nil] at hemitted
    refine ⟨signals ++ [json], closed, ?_⟩
    rw [if_neg hclosed, List.append_nil, List.map_append, ← hemitted]
    rfl
  · exact h.accepting r ((List.mem_cons.mp hop).resolve_left nofun)

theorem endPeer {q : PeerID} {closed : PeerClosed}
    (h : Sound t.toSession (.endPeer q closed :: code)) :
    Sound (t.endPeer q closed).1.toSession ((t.endPeer q closed).2 ++ code) := by
  have hrest := Streams.rest_endPeer t q closed
  have halike : ∀ p, (t.pubs p).Alike ((t.endPeer q closed).1.pubs p) := by
    intro p
    cases hclosed : (t.peers q).closed with
    | true =>
      rw [Streams.endPeer_of_closed hclosed]
      exact .refl _
    | false =>
      rw [Streams.pubs_endPeer hclosed]
      split
      · exact ⟨rfl, rfl, rfl⟩
      · exact .refl _
  have hdone : Sound (t.endPeer q closed).1.toSession code :=
    ⟨PubsSound.congr h.pubs hrest.published hrest.nextPub halike, ViewersSound.endPeer h.viewers,
      WatchesSound.endPeer h.watches, told_endPeer h.peers q closed,
      fun r => by rw [hrest.requests]; exact h.requests r,
      fun r hop => by
        rw [hrest.nextRequest]
        exact h.accepting r (List.mem_cons_of_mem _ hop)⟩
  refine hdone.aside fun op hop => ?_
  rw [Streams.endPeer] at hop
  split at hop
  · cases hop
  · rw [List.mem_singleton.mp hop]
    rfl

theorem dropPending {p : PubID} {c : ClientID} (h : Sound t.toSession (.dropPending p c :: code)) :
    Sound (t.dropPending p c).1.toSession ((t.dropPending p c).2 ++ code) := by
  have hviewers := ViewersSound.dropPending (p := p) (c := c) h.viewers
  have haccepting : ∀ r, Op.accepting r ∈ code → r < t.nextRequest := fun r hop =>
    h.accepting r (List.mem_cons_of_mem _ hop)
  unfold Streams.dropPending at hviewers ⊢
  split
  · rename_i hnone
    rw [hnone] at hviewers
    exact ⟨h.pubs, hviewers, h.watches, h.peers, h.requests,
      fun r hop => haccepting r ((List.mem_cons.mp hop).resolve_left nofun)⟩
  · rename_i sl hsome
    rw [hsome] at hviewers
    refine ⟨PubsSound.modifyPub h.pubs ⟨rfl, rfl, rfl⟩, hviewers,
      h.watches.congr rfl (fun _ => .refl _) (fun _ => .refl _) rfl rfl, h.peers, h.requests,
      fun r hop => haccepting r ?_⟩
    exact (List.mem_cons.mp ((List.mem_cons.mp hop).resolve_left nofun)).resolve_left nofun

/-- A request closes. -/
theorem closeRequest {r : RequestID} {cause : RequestState} (h : Sound t.toSession (op :: code))
    (hover : cause.isOver = true) {op' : Op}
    (hpubs : PubsSound t.toSession ((op' :: code).filter Op.ofPubs))
    (hviewers : ViewersSound (t.closeRequest r cause).1.toSession
      ((op' :: code).filter Op.ofViewers))
    (hwatches : WatchesSound t.toSession ((op' :: code).filter Op.ofWatches))
    (hop' : ∀ r, op' ≠ .accepting r) :
    Sound (t.closeRequest r cause).1.toSession ((t.closeRequest r cause).2 ++ op' :: code) := by
  have htold := told_closeRequest h.requests r hover
  have hsame : (t.closeRequest r cause).1.toSession =
      { t.toSession with requests := (t.closeRequest r cause).1.requests } := by
    rw [Streams.closeRequest]
    split
    · rfl
    · rfl
  have hdone : Sound (t.closeRequest r cause).1.toSession (op' :: code) := by
    rw [hsame] at hviewers ⊢
    exact ⟨hpubs.congr rfl rfl fun _ => .refl _, hviewers,
      hwatches.congr rfl (fun _ => .refl _) (fun _ => .refl _) rfl rfl, h.peers, htold,
      fun r hop => h.accepting r (List.mem_cons_of_mem _
        ((List.mem_cons.mp hop).resolve_left fun heq => hop' r heq.symm))⟩
  refine hdone.aside fun op hop => ?_
  rw [Streams.closeRequest] at hop
  split at hop
  · cases hop
  · rw [List.mem_singleton.mp hop]
    rfl

theorem dropRequest {p : PubID} {c : ClientID} (h : Sound t.toSession (.dropRequest p c :: code)) :
    Sound (t.dropRequest p c).1.toSession ((t.dropRequest p c).2 ++ code) := by
  have hviewers := ViewersSound.dropRequest h.viewers
  unfold Streams.dropRequest at hviewers ⊢
  split
  · rename_i hnone
    rw [hnone] at hviewers
    exact ⟨h.pubs, hviewers, h.watches, h.peers, h.requests, fun r hop => h.accepting r
      (List.mem_cons_of_mem _ ((List.mem_cons.mp hop).resolve_left nofun))⟩
  · rename_i r hsome
    rw [hsome] at hviewers
    rw [List.append_assoc]
    exact h.closeRequest rfl h.pubs hviewers h.watches nofun

theorem deletePending {p : PubID} {c : ClientID}
    (h : Sound t.toSession (.deletePending p c :: code)) :
    Sound (t.deletePending p c).toSession code :=
  ⟨PubsSound.modifyPub h.pubs ⟨rfl, rfl, rfl⟩, ViewersSound.deletePending h.viewers,
    h.watches.congr rfl (fun _ => .refl _) (fun _ => .refl _) rfl rfl, h.peers, h.requests,
    fun r hop => h.accepting r (List.mem_cons_of_mem _ hop)⟩

/-! ### The end of a stream -/

theorem finish {p : PubID} {ended : StreamEnded} (h : Sound t.toSession (.finish p ended :: code)) :
    Sound (t.finish p ended).1.toSession ((t.finish p ended).2 ++ code) := by
  have hpubs := PubsSound.finish h.pubs
  have hviewers : ViewersSound (t.finish p ended).1.toSession
      ((t.finish p ended).2 ++ code.filter Op.ofViewers) := ViewersSound.finish h.viewers
  unfold Streams.finish at hpubs hviewers ⊢
  split
  · rename_i hended
    rw [if_pos hended] at hpubs hviewers
    exact ⟨hpubs, hviewers, h.watches, h.peers, h.requests,
      fun r hop => h.accepting r (List.mem_cons_of_mem _ hop)⟩
  · rename_i hended
    rw [if_neg hended] at hpubs hviewers
    exact ⟨hpubs, hviewers, h.watches.congr rfl (fun _ => .refl _) (fun _ => .refl _) rfl rfl,
      h.peers, h.requests, fun r hop => h.accepting r
        (List.mem_cons_of_mem _ ((List.mem_cons.mp hop).resolve_left nofun))⟩

theorem closeRequests {p : PubID} {rs : List RequestID} {ended : StreamEnded}
    (h : Sound t.toSession (.closeRequests p rs ended :: code)) :
    Sound (t.closeRequests p ended rs).1.toSession ((t.closeRequests p ended rs).2 ++ code) := by
  cases rs with
  | nil =>
    obtain ⟨hended, hzero, -⟩ := PubsSound.finishes_eq_zero (p := p) h.pubs (decide_eq_true rfl)
    have hone : ∀ rs e, Op.closeRequests p rs e ∉ code.filter Op.ofViewers := by
      intro rs e hop
      have hmem : Op.closeRequests p rs e ∈ code.filter Op.ofPubs :=
        List.mem_filter.mpr ⟨(List.mem_filter.mp hop).1, rfl⟩
      exact absurd (List.countP_pos_iff.mpr ⟨_, hmem, decide_eq_true rfl⟩)
        (Nat.not_lt.mpr (Nat.le_of_eq hzero))
    have hpubs : PubsSound t.toSession (.endPeers p ((t.pubs p).peers.entries.map Prod.snd) ended ::
        code.filter Op.ofPubs) := PubsSound.next h.pubs (fun _ => rfl) nofun nofun
    exact ⟨hpubs.modifyPub (p := p) (f := fun pub => { pub with pending := .empty })
        ⟨rfl, rfl, rfl⟩,
      ViewersSound.closeRequests_nil h.viewers hended hone,
      h.watches.congr rfl (fun _ => .refl _) (fun _ => .refl _) rfl rfl, h.peers, h.requests,
      fun r hop => h.accepting r
        (List.mem_cons_of_mem _ ((List.mem_cons.mp hop).resolve_left nofun))⟩
  | cons r rs =>
    have hpubs : PubsSound t.toSession (.closeRequests p rs ended :: code.filter Op.ofPubs) :=
      PubsSound.next h.pubs (fun _ => rfl) nofun nofun
    unfold Streams.closeRequests
    rw [List.append_assoc]
    exact h.closeRequest rfl hpubs (ViewersSound.closeRequests_cons h.viewers) h.watches nofun

theorem endPeers {p : PubID} {qs : List PeerID} {ended : StreamEnded}
    (h : Sound t.toSession (.endPeers p qs ended :: code)) :
    Sound (t.endPeers p ended qs).1.toSession ((t.endPeers p ended qs).2 ++ code) := by
  cases qs with
  | nil =>
    exact ⟨PubsSound.endPeers_nil h.pubs, ViewersSound.endPeers_nil h.viewers,
      h.watches.congr rfl (fun _ => .refl _) (fun _ => .refl _) rfl rfl, h.peers, h.requests,
      fun r hop => h.accepting r
        (List.mem_cons_of_mem _ ((List.mem_cons.mp hop).resolve_left nofun))⟩
  | cons q qs =>
    have hpubs : PubsSound t.toSession (.endPeers p qs ended :: code.filter Op.ofPubs) :=
      PubsSound.next h.pubs (fun _ => rfl) nofun nofun
    refine ⟨hpubs, ViewersSound.endPeers_cons h.viewers ended.closed,
      h.watches.push_endPeer q ended.closed, h.peers, h.requests, fun r hop => h.accepting r ?_⟩
    exact List.mem_cons_of_mem _
      ((List.mem_cons.mp ((List.mem_cons.mp hop).resolve_left nofun)).resolve_left nofun)

/-- `#end`. -/
theorem endStream (h : Sound t.toSession code) (id : Str) (cause : EndCause) (reason : Nat) :
    Sound (t.endStream id cause reason).1.toSession
      ((t.endStream id cause reason).2 ++ code) := by
  obtain ⟨hsession, hops⟩ := Streams.endStream_eq t id cause reason
  rw [hsession, hops, List.append_assoc]
  have hpubs := h.pubs.delete id ⟨cause, reason⟩
  have hviewers : ViewersSound { t.toSession with published := t.published.delete id }
      (code.filter Op.ofViewers) :=
    h.viewers.congr (fun _ => .refl _) (fun _ => .refl _) rfl (fun _ => rfl) rfl rfl rfl rfl
  have hwatches : WatchesSound { t.toSession with published := t.published.delete id }
      (code.filter Op.ofWatches) :=
    h.watches.congr rfl (fun _ => .refl _) (fun _ => .refl _) rfl rfl
  cases hget : t.published.get? id with
  | none =>
    rw [hget] at hpubs
    exact ⟨hpubs, hviewers, hwatches, h.peers, h.requests,
      fun r hop => h.accepting r ((List.mem_cons.mp hop).resolve_left nofun)⟩
  | some p =>
    rw [hget] at hpubs
    refine ⟨hpubs, hviewers, hwatches, h.peers, h.requests, fun r hop => h.accepting r ?_⟩
    exact (List.mem_cons.mp ((List.mem_cons.mp hop).resolve_left nofun)).resolve_left nofun

theorem endWatch {id : Str} {info : Option StreamInfo} {cause : EndCause} {reason : Nat}
    (h : Sound t.toSession (.endWatch id info cause reason :: code)) :
    Sound (t.endWatch id info cause reason).1.toSession
      ((t.endWatch id info cause reason).2 ++ code) := by
  have hwatches : WatchesSound t.toSession (code.filter Op.ofWatches) := h.watches
  replace hwatches := hwatches.endWatch id info cause reason
  have haccepting : ∀ r, Op.accepting r ∈ code → r < t.nextRequest := fun r hop =>
    h.accepting r (List.mem_cons_of_mem _ hop)
  unfold Streams.endWatch at hwatches ⊢
  split
  · rename_i hnone
    rw [hnone] at hwatches
    exact ⟨h.pubs, h.viewers, hwatches, h.peers, h.requests,
      fun r hop => haccepting r ((List.mem_cons.mp hop).resolve_left nofun)⟩
  rename_i w hsome
  rw [hsome] at hwatches
  dsimp only at hwatches ⊢
  split
  · rename_i q hview
    rw [hview] at hwatches
    have hviewers : ViewersSound { t.toSession with watching := t.watching.delete id }
        (code.filter Op.ofViewers) :=
      h.viewers.congr (fun _ => .refl _) (fun _ => .refl _) rfl (fun _ => rfl) rfl rfl rfl rfl
    refine ⟨h.pubs.congr rfl rfl fun _ => .refl _, hviewers.push_endPeer q _, hwatches, h.peers,
      h.requests, fun r hop => haccepting r ?_⟩
    exact (List.mem_cons.mp ((List.mem_cons.mp hop).resolve_left nofun)).resolve_left nofun
  · rename_i hview
    rw [hview] at hwatches
    exact ⟨h.pubs.congr rfl rfl fun _ => .refl _,
      h.viewers.congr (fun _ => .refl _) (fun _ => .refl _) rfl (fun _ => rfl) rfl rfl rfl rfl,
      hwatches, h.peers, h.requests,
      fun r hop => haccepting r ((List.mem_cons.mp hop).resolve_left nofun)⟩

theorem closeWatch {w : WatchID} {gone : Failure} {cause : PeerCloseCause}
    (h : Sound t.toSession (.closeWatch w gone cause :: code)) :
    Sound (t.closeWatch w gone cause).1.toSession ((t.closeWatch w gone cause).2 ++ code) := by
  have hwatches := WatchesSound.closeWatch h.watches
  have haccepting : ∀ r, Op.accepting r ∈ code → r < t.nextRequest := fun r hop =>
    h.accepting r (List.mem_cons_of_mem _ hop)
  unfold Streams.closeWatch at hwatches ⊢
  split
  · rename_i q hview
    rw [hview] at hwatches
    exact ⟨h.pubs, h.viewers.push_endPeer q _, hwatches, h.peers, h.requests,
      fun r hop => haccepting r ((List.mem_cons.mp hop).resolve_left nofun)⟩
  · rename_i hview
    rw [hview] at hwatches
    exact ⟨h.pubs.congr rfl rfl fun _ => .refl _,
      h.viewers.congr (fun _ => .refl _) (fun _ => .refl _) rfl (fun _ => rfl) rfl rfl rfl rfl,
      hwatches, h.peers, h.requests, haccepting⟩

/-! ### Resetting -/

theorem session_foldl {α : Type*} {f : Streams → α → Streams}
    (hf : ∀ t a, (f t a).toSession = t.toSession) (l : List α) (t : Streams) :
    (l.foldl f t).toSession = t.toSession := by
  induction l generalizing t with
  | nil => rfl
  | cons a l ih => exact (ih (f t a)).trans (hf t a)

theorem session_goodbyes (t : Streams) : t.goodbyes.toSession = t.toSession := by
  rw [Streams.goodbyes]
  split
  · have hstop : ∀ (t : Streams) (e : Str × PubID),
        (t.bestEffort (.stopstream (t.pubs e.2).id 0)).toSession = t.toSession := fun _ _ => rfl
    have hleave : ∀ (t : Streams) (e : Str × WatchID),
        (t.bestEffort (.joinstreamrequest e.1 (t.watches e.2).streamer true)).toSession =
          t.toSession := fun _ _ => rfl
    exact (session_foldl hleave _ _).trans (session_foldl hstop _ _)
  · rfl

theorem session_reset (t : Streams) (gone : Failure) (ended : EndCause) (cause : PeerCloseCause) :
    (t.reset gone ended cause).1.toSession =
      { t.toSession with published := .empty, watching := .empty } := by
  have hattempt : ∀ (t : Streams) (k : CallID),
      (Streams.resetAttempt gone t k).toSession = t.toSession := fun _ _ => rfl
  have hattempts := session_foldl hattempt t.publishing t
  rw [Streams.reset]
  dsimp only
  rw [session_goodbyes]
  show { (t.publishing.foldl (Streams.resetAttempt gone) t).toSession with
    published := .empty, watching := .empty } = _
  rw [hattempts]

theorem filter_reset {f : Op → Bool} (hf : ∀ op, f op = true → op.isAside = false)
    (ps : List PubID) (ws : List WatchID) (gone : Failure) (ended : EndCause)
    (cause : PeerCloseCause) :
    (ps.map (Op.finish · ⟨ended, 0⟩) ++
      (if ended = EndCause.disposed then [Op.forgetDenied] else []) ++
      ws.map (Op.closeWatch · gone cause) ++ [Op.forgetClosedViews] ++ code).filter f =
    (ps.map (Op.finish · ⟨ended, 0⟩)).filter f ++ (ws.map (Op.closeWatch · gone cause)).filter f ++
      code.filter f := by
  have hdenied : (if ended = EndCause.disposed then [Op.forgetDenied] else []).filter f = [] := by
    refine filter_aside hf fun op hop => ?_
    split at hop
    · rw [List.mem_singleton.mp hop]
      rfl
    · cases hop
  have hviews : [Op.forgetClosedViews].filter f = [] :=
    filter_aside hf fun op hop => by rw [List.mem_singleton.mp hop]; rfl
  rw [List.filter_append, List.filter_append, List.filter_append, List.filter_append, hdenied,
    hviews, List.append_nil, List.append_nil]

theorem filter_map {α : Type*} {f : Op → Bool} {g : α → Op} (hf : ∀ a, f (g a) = true)
    (l : List α) : (l.map g).filter f = l.map g := by
  rw [List.filter_eq_self]
  intro op hop
  obtain ⟨a, -, rfl⟩ := List.mem_map.mp hop
  exact hf a

theorem filter_map_nil {α : Type*} {f : Op → Bool} {g : α → Op} (hf : ∀ a, f (g a) = false)
    (l : List α) : (l.map g).filter f = [] := by
  rw [List.filter_eq_nil_iff]
  intro op hop
  obtain ⟨a, -, rfl⟩ := List.mem_map.mp hop
  exact Bool.eq_false_iff.mp (hf a)

theorem reset (h : Sound t.toSession code) (gone : Failure) (ended : EndCause)
    (cause : PeerCloseCause) :
    Sound (t.reset gone ended cause).1.toSession ((t.reset gone ended cause).2 ++ code) := by
  have hops : (t.reset gone ended cause).2 =
      (t.published.entries.map Prod.snd).map (Op.finish · ⟨ended, 0⟩) ++
        (if ended = EndCause.disposed then [Op.forgetDenied] else []) ++
        (t.watching.entries.map Prod.snd).map (Op.closeWatch · gone cause) ++
        [.forgetClosedViews] := rfl
  have hpubs := (h.pubs.clear ⟨ended, 0⟩)
  have hwatches := h.watches.clear gone cause
  rw [session_reset, hops]
  generalize t.published.entries.map Prod.snd = ps at hpubs ⊢
  generalize t.watching.entries.map Prod.snd = ws at hwatches ⊢
  refine ⟨?_, ?_, ?_, h.peers, h.requests, fun r hop => h.accepting r ?_⟩
  · rw [filter_reset isAside_of_ofPubs, filter_map (fun _ => rfl), filter_map_nil (fun _ => rfl),
      List.append_nil]
    exact hpubs.congr rfl rfl fun _ => .refl _
  · rw [filter_reset isAside_of_ofViewers, filter_map_nil (fun _ => rfl),
      filter_map_nil (fun _ => rfl)]
    exact h.viewers.congr (fun _ => .refl _) (fun _ => .refl _) rfl (fun _ => rfl) rfl rfl rfl rfl
  · rw [filter_reset isAside_of_ofWatches, filter_map_nil (fun _ => rfl), filter_map (fun _ => rfl)]
    exact hwatches.congr rfl (fun _ => .refl _) (fun _ => .refl _) rfl rfl
  · have hnot : ∀ op ∈ ps.map (Op.finish · ⟨ended, 0⟩) ++
        (if ended = .disposed then [Op.forgetDenied] else []) ++
        ws.map (Op.closeWatch · gone cause) ++ [.forgetClosedViews], op ≠ .accepting r := by
      rintro op hop rfl
      rcases List.mem_append.mp hop with hop | hop
      · rcases List.mem_append.mp hop with hop | hop
        · rcases List.mem_append.mp hop with hop | hop
          · obtain ⟨p, -, heq⟩ := List.mem_map.mp hop
            cases heq
          · split at hop
            · cases List.mem_singleton.mp hop
            · cases hop
        · obtain ⟨w, -, heq⟩ := List.mem_map.mp hop
          cases heq
      · cases List.mem_singleton.mp hop
    exact (List.mem_append.mp hop).resolve_left fun hmem => hnot _ hmem rfl

end Sound

theorem session_new (rememberDenied connected supported : Bool) (self : ClientID)
    (view : ClientID → Option Identity) (streaming : List ClientID) :
    (Streams.new rememberDenied connected supported self view streaming).toSession = {} := by
  rw [Streams.new]
  split
  · refine Sound.session_foldl (fun t clid => ?_) streaming _
    rw [Streams.discover]
    split <;> rfl
  · rfl

end Teamspeak.Stream
