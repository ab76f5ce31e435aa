import Teamspeak.Stream.Peers

/-!
# Viewers

What holds of the peers and the join requests of published streams whenever an operation
is next, whatever the listeners do meanwhile.

* `ViewersSound`: a stream holds its open peers, and its pending requests; a client that is
  pending or looked up has no peer.  What is left of a stream that has ended is still to be
  closed.
* `ViewersSound.closePeer`, `ViewersSound.finish`, `ViewersSound.closeRequests_cons`: how
  they close.
* `ViewersSound.announced`, `ViewersSound.accepting`: how a client becomes a viewer.
-/

namespace Teamspeak.Stream

/-- The operations that concern viewers. -/
def Op.ofViewers : Op → Bool
  | .closeRequests _ _ _ | .endPeers _ _ _ | .endPeer _ _ | .dropRequest _ _
  | .deletePending _ _ => true
  | _ => false

/-- A request that will not be answered. -/
def RequestState.isOver : RequestState → Bool
  | .withdrawn | .ended => true
  | _ => false

/-- Client `c` has a request pending at `p`. -/
def Asks (s : Session) (p : PubID) (c : ClientID) : Prop :=
  ∃ r < s.nextRequest, (s.requests r).state = .pending ∧ (s.requests r).stream = p ∧
    (s.requests r).clientId = c

/-- What a peer of an ended stream still waits for. -/
def PeerEnds (code : List Op) (p : PubID) (q : PeerID) : Prop :=
  (∃ rs ended, Op.closeRequests p rs ended ∈ code) ∨
    (∃ qs ended, Op.endPeers p qs ended ∈ code ∧ q ∈ qs) ∨ ∃ closed, Op.endPeer q closed ∈ code

/-- What a pending request of an ended stream still waits for. -/
def RequestEnds (code : List Op) (p : PubID) (r : RequestID) : Prop :=
  ∃ rs ended, Op.closeRequests p rs ended ∈ code ∧ r ∈ rs

/-- What takes a request that is over out of its stream. -/
def RequestLeaves (code : List Op) (p : PubID) (c : ClientID) : Prop :=
  Op.dropRequest p c ∈ code ∨ Op.deletePending p c ∈ code ∨
    ∃ rs ended, Op.closeRequests p rs ended ∈ code

theorem PeerEnds.mono {code code' : List Op} (hcode : ∀ op ∈ code, op ∈ code') {p : PubID}
    {q : PeerID} (h : PeerEnds code p q) : PeerEnds code' p q := by
  rcases h with ⟨rs, e, hop⟩ | ⟨qs, e, hop, hmem⟩ | ⟨x, hop⟩
  · exact Or.inl ⟨rs, e, hcode _ hop⟩
  · exact Or.inr (Or.inl ⟨qs, e, hcode _ hop, hmem⟩)
  · exact Or.inr (Or.inr ⟨x, hcode _ hop⟩)

theorem RequestEnds.mono {code code' : List Op} (hcode : ∀ op ∈ code, op ∈ code') {p : PubID}
    {r : RequestID} (h : RequestEnds code p r) : RequestEnds code' p r := by
  obtain ⟨rs, e, hop, hmem⟩ := h
  exact ⟨rs, e, hcode _ hop, hmem⟩

theorem RequestLeaves.mono {code code' : List Op} (hcode : ∀ op ∈ code, op ∈ code') {p : PubID}
    {c : ClientID} (h : RequestLeaves code p c) : RequestLeaves code' p c := by
  rcases h with hop | hop | ⟨rs, e, hop⟩
  · exact Or.inl (hcode _ hop)
  · exact Or.inr (Or.inl (hcode _ hop))
  · exact Or.inr (Or.inr ⟨rs, e, hcode _ hop⟩)

structure ViewersSound (s : Session) (code : List Op) : Prop where
  held : ∀ p c q, (s.pubs p).peers.get? c = some q →
    q < s.nextPeer ∧ (s.peers q).owner = .viewer p ∧ (s.peers q).clientId = c ∧
      (s.peers q).closed = false
  live : ∀ q < s.nextPeer, (s.peers q).closed = false → ∀ p, (s.peers q).owner = .viewer p →
    p < s.nextPub ∧ (s.pubs p).peers.get? (s.peers q).clientId = some q
  ends : ∀ p c q, (s.pubs p).ended = true → (s.pubs p).peers.get? c = some q → PeerEnds code p q
  pending : ∀ r < s.nextRequest, (s.requests r).state = .pending →
    (s.requests r).stream < s.nextPub ∧
      (s.pubs (s.requests r).stream).pending.get? (s.requests r).clientId = some r ∧
      (s.pubs (s.requests r).stream).peers.get? (s.requests r).clientId = none
  closes : ∀ r < s.nextRequest, (s.requests r).state = .pending →
    (s.pubs (s.requests r).stream).ended = true → RequestEnds code (s.requests r).stream r
  asked : ∀ p c r, (s.pubs p).pending.get? c = some r →
    r < s.nextRequest ∧ (s.requests r).stream = p ∧ (s.requests r).clientId = c
  leaves : ∀ p c r, (s.pubs p).pending.get? c = some r → (s.requests r).state.isOver = true →
    RequestLeaves code p c
  resolving : ∀ p c sl, (s.pubs p).resolving.get? c = some sl →
    p < s.nextPub ∧ sl < s.nextSlot ∧ (s.slots sl).clientId = c ∧ (s.pubs p).ended = false ∧
      (s.pubs p).peers.get? c = none ∧ ¬Asks s p c
  dropping : ∀ p c, Op.dropRequest p c ∈ code → (s.pubs p).resolving.get? c = none
  deleting : ∀ p c, Op.deletePending p c ∈ code →
    (s.pubs p).resolving.get? c = none ∧ ¬Asks s p c
  closing : ∀ p rs ended, Op.closeRequests p rs ended ∈ code → ∀ r ∈ rs,
    r < s.nextRequest ∧ (s.requests r).stream = p

namespace ViewersSound

variable {s s' : Session} {t : Streams} {code code' : List Op}

/-- A pending request is where its stream holds it. -/
theorem not_asks (h : ViewersSound s code) {p : PubID} {c : ClientID}
    (hget : ∀ r, (s.pubs p).pending.get? c = some r → (s.requests r).state ≠ .pending) :
    ¬Asks s p c := by
  rintro ⟨r, hr, hstate, hp, hc⟩
  have hheld := (h.pending r hr hstate).2.1
  rw [hp, hc] at hheld
  exact hget r hheld hstate

/-! ### Operations -/

/-- The operations may change, as long as nothing is left undone and nothing new is
promised. -/
theorem operations (h : ViewersSound s code)
    (hends : ∀ p c q, (s.pubs p).peers.get? c = some q → PeerEnds code p q → PeerEnds code' p q)
    (hcloses : ∀ r, (s.requests r).state = .pending →
      RequestEnds code (s.requests r).stream r → RequestEnds code' (s.requests r).stream r)
    (hleaves : ∀ p c, RequestLeaves code p c → RequestLeaves code' p c)
    (hdropping : ∀ p c, Op.dropRequest p c ∈ code' → (s.pubs p).resolving.get? c = none)
    (hdeleting : ∀ p c, Op.deletePending p c ∈ code' →
      (s.pubs p).resolving.get? c = none ∧ ¬Asks s p c)
    (hclosing : ∀ p rs ended, Op.closeRequests p rs ended ∈ code' → ∀ r ∈ rs,
      r < s.nextRequest ∧ (s.requests r).stream = p) : ViewersSound s code' where
  held := h.held
  live := h.live
  ends p c q hended hget := hends p c q hget (h.ends p c q hended hget)
  pending := h.pending
  closes r hr hstate hended := hcloses r hstate (h.closes r hr hstate hended)
  asked := h.asked
  leaves p c r hget hover := hleaves p c (h.leaves p c r hget hover)
  resolving := h.resolving
  dropping := hdropping
  deleting := hdeleting
  closing := hclosing

/-- One more operation: one that promises nothing, or what holds. -/
theorem push (h : ViewersSound s code) (op : Op)
    (hdropping : ∀ p c, op = .dropRequest p c → (s.pubs p).resolving.get? c = none)
    (hdeleting : ∀ p c, op = .deletePending p c →
      (s.pubs p).resolving.get? c = none ∧ ¬Asks s p c)
    (hclosing : ∀ p rs ended, op = .closeRequests p rs ended → ∀ r ∈ rs,
      r < s.nextRequest ∧ (s.requests r).stream = p) : ViewersSound s (op :: code) := by
  have hcode : ∀ op' ∈ code, op' ∈ op :: code := fun _ => List.mem_cons_of_mem _
  refine h.operations (fun p c q _ => .mono hcode) (fun r _ => .mono hcode) (fun p c => .mono hcode)
    (fun p c hop => ?_) (fun p c hop => ?_) fun p rs ended hop => ?_
  · exact (List.mem_cons.mp hop).elim (fun heq => hdropping p c heq.symm) (h.dropping p c)
  · exact (List.mem_cons.mp hop).elim (fun heq => hdeleting p c heq.symm) (h.deleting p c)
  · exact (List.mem_cons.mp hop).elim (fun heq => hclosing p rs ended heq.symm)
      (h.closing p rs ended)

theorem push_endPeer (h : ViewersSound s code) (q : PeerID) (closed : PeerClosed) :
    ViewersSound s (.endPeer q closed :: code) := h.push _ nofun nofun nofun

/-- One operation less, on which nothing relies any more. -/
theorem pop {op : Op} (h : ViewersSound s (op :: code))
    (hends : ∀ p c q, (s.pubs p).peers.get? c = some q → PeerEnds (op :: code) p q →
      PeerEnds code p q)
    (hcloses : ∀ r, (s.requests r).state = .pending →
      RequestEnds (op :: code) (s.requests r).stream r → RequestEnds code (s.requests r).stream r)
    (hleaves : ∀ p c, RequestLeaves (op :: code) p c → RequestLeaves code p c) :
    ViewersSound s code :=
  h.operations hends hcloses hleaves (fun p c hop => h.dropping p c (List.mem_cons_of_mem _ hop))
    (fun p c hop => h.deleting p c (List.mem_cons_of_mem _ hop))
    fun p rs ended hop => h.closing p rs ended (List.mem_cons_of_mem _ hop)

/-- An operation that is done with: one for a peer, once it has closed. -/
theorem pop_endPeer {q : PeerID} {closed : PeerClosed}
    (h : ViewersSound s (.endPeer q closed :: code))
    (hclosed : (s.peers q).closed = true) : ViewersSound s code := by
  refine h.pop (fun p c q' hget hends => ?_) (fun r _ hends => ?_) fun p c hleaves => ?_
  · rcases hends with ⟨rs, e, hop⟩ | ⟨qs, e, hop, hmem⟩ | ⟨x, hop⟩
    · exact Or.inl ⟨rs, e, (List.mem_cons.mp hop).resolve_left nofun⟩
    · exact Or.inr (Or.inl ⟨qs, e, (List.mem_cons.mp hop).resolve_left nofun, hmem⟩)
    · refine Or.inr (Or.inr ⟨x, (List.mem_cons.mp hop).resolve_left fun heq => ?_⟩)
      have hopen := (h.held p c q' hget).2.2.2
      rw [(Op.endPeer.inj heq).1, hclosed] at hopen
      cases hopen
  · obtain ⟨rs, e, hop, hmem⟩ := hends
    exact ⟨rs, e, (List.mem_cons.mp hop).resolve_left nofun, hmem⟩
  · rcases hleaves with hop | hop | ⟨rs, e, hop⟩
    · exact Or.inl ((List.mem_cons.mp hop).resolve_left nofun)
    · exact Or.inr (Or.inl ((List.mem_cons.mp hop).resolve_left nofun))
    · exact Or.inr (Or.inr ⟨rs, e, (List.mem_cons.mp hop).resolve_left nofun⟩)

/-! ### What does not concern them -/

/-- What the published streams are, for their viewers. -/
def SamePub (a b : Published) : Prop :=
  b.ended = a.ended ∧ b.peers = a.peers ∧ b.pending = a.pending ∧ b.resolving = a.resolving

theorem SamePub.refl (pub : Published) : SamePub pub pub := ⟨rfl, rfl, rfl, rfl⟩

theorem samePub_modifyPub (t : Streams) {p : PubID} {f : Published → Published}
    (hf : SamePub (t.pubs p) (f (t.pubs p))) (j : PubID) :
    SamePub (t.pubs j) ((t.modifyPub p f).pubs j) := by
  rw [Streams.pubs_modifyPub]
  split
  · rename_i hj
    exact hj ▸ hf
  · exact .refl _

theorem congr (h : ViewersSound s code) (hpubs : ∀ p, SamePub (s.pubs p) (s'.pubs p))
    (hpeers : ∀ q, SamePeer (s.peers q) (s'.peers q)) (hrequests : s'.requests = s.requests)
    (hslots : ∀ sl, (s'.slots sl).clientId = (s.slots sl).clientId) (hpub : s'.nextPub = s.nextPub)
    (hpeer : s'.nextPeer = s.nextPeer) (hrequest : s'.nextRequest = s.nextRequest)
    (hslot : s'.nextSlot = s.nextSlot) : ViewersSound s' code := by
  have hasks : ∀ p c, Asks s' p c ↔ Asks s p c := by
    intro p c
    rw [Asks, Asks, hrequests, hrequest]
  constructor
  · intro p c q hget
    rw [(hpubs p).2.1] at hget
    rw [hpeer, (hpeers q).1, (hpeers q).2.1, (hpeers q).2.2]
    exact h.held p c q hget
  · intro q hq hopen p howner
    rw [hpeer] at hq
    rw [(hpeers q).2.2] at hopen
    rw [(hpeers q).1] at howner
    rw [hpub, (hpubs p).2.1, (hpeers q).2.1]
    exact h.live q hq hopen p howner
  · intro p c q hended hget
    rw [(hpubs p).1] at hended
    rw [(hpubs p).2.1] at hget
    exact h.ends p c q hended hget
  · intro r hr hstate
    rw [hrequest] at hr
    rw [hrequests] at hstate ⊢
    rw [hpub, (hpubs _).2.1, (hpubs _).2.2.1]
    exact h.pending r hr hstate
  · intro r hr hstate hended
    rw [hrequest] at hr
    rw [hrequests] at hstate hended ⊢
    rw [(hpubs _).1] at hended
    exact h.closes r hr hstate hended
  · intro p c r hget
    rw [(hpubs p).2.2.1] at hget
    rw [hrequest, hrequests]
    exact h.asked p c r hget
  · intro p c r hget hover
    rw [(hpubs p).2.2.1] at hget
    rw [hrequests] at hover
    exact h.leaves p c r hget hover
  · intro p c sl hget
    rw [(hpubs p).2.2.2] at hget
    rw [hpub, hslot, hslots, (hpubs p).1, (hpubs p).2.1, hasks]
    exact h.resolving p c sl hget
  · intro p c hop
    rw [(hpubs p).2.2.2]
    exact h.dropping p c hop
  · intro p c hop
    rw [(hpubs p).2.2.2, hasks]
    exact h.deleting p c hop
  · intro p rs ended hop r hr
    rw [hrequest, hrequests]
    exact h.closing p rs ended hop r hr

/-! ### Peers -/

/-- A peer closes, and its stream lets go of it. -/
theorem closePeer {q : PeerID} (h : ViewersSound s code)
    (hpubs : ∀ p, (s'.pubs p).ended = (s.pubs p).ended ∧ (s'.pubs p).pending = (s.pubs p).pending ∧
      (s'.pubs p).resolving = (s.pubs p).resolving)
    (hmap : ∀ p c q', (s'.pubs p).peers.get? c = some q' ↔
      (s.pubs p).peers.get? c = some q' ∧ q' ≠ q)
    (hpeers : ∀ j, (s'.peers j).owner = (s.peers j).owner ∧
      (s'.peers j).clientId = (s.peers j).clientId ∧
      (s'.peers j).closed = if j = q then true else (s.peers j).closed)
    (hrequests : s'.requests = s.requests) (hslots : s'.slots = s.slots)
    (hpub : s'.nextPub = s.nextPub) (hpeer : s'.nextPeer = s.nextPeer)
    (hrequest : s'.nextRequest = s.nextRequest) (hslot : s'.nextSlot = s.nextSlot) :
    ViewersSound s' code := by
  have hasks : ∀ p c, Asks s' p c ↔ Asks s p c := by
    intro p c
    rw [Asks, Asks, hrequests, hrequest]
  have hnone : ∀ p c, (s.pubs p).peers.get? c = none → (s'.pubs p).peers.get? c = none := by
    intro p c hget
    rw [Option.eq_none_iff_forall_ne_some]
    intro q' hget'
    rw [((hmap p c q').mp hget').1] at hget
    cases hget
  constructor
  · intro p c q' hget
    obtain ⟨hget, hne⟩ := (hmap p c q').mp hget
    rw [hpeer, (hpeers q').1, (hpeers q').2.1, (hpeers q').2.2, if_neg hne]
    exact h.held p c q' hget
  · intro q' hq' hopen p howner
    rw [hpeer] at hq'
    rw [(hpeers q').2.2] at hopen
    rw [(hpeers q').1] at howner
    split at hopen
    · cases hopen
    rename_i hne
    obtain ⟨hp, hget⟩ := h.live q' hq' hopen p howner
    rw [hpub, (hpeers q').2.1]
    exact ⟨hp, (hmap p _ q').mpr ⟨hget, hne⟩⟩
  · intro p c q' hended hget
    rw [(hpubs p).1] at hended
    exact h.ends p c q' hended ((hmap p c q').mp hget).1
  · intro r hr hstate
    rw [hrequest] at hr
    rw [hrequests] at hstate ⊢
    obtain ⟨hp, hget, hpeers'⟩ := h.pending r hr hstate
    rw [hpub, (hpubs _).2.1]
    exact ⟨hp, hget, hnone _ _ hpeers'⟩
  · intro r hr hstate hended
    rw [hrequest] at hr
    rw [hrequests] at hstate hended ⊢
    rw [(hpubs _).1] at hended
    exact h.closes r hr hstate hended
  · intro p c r hget
    rw [(hpubs p).2.1] at hget
    rw [hrequest, hrequests]
    exact h.asked p c r hget
  · intro p c r hget hover
    rw [(hpubs p).2.1] at hget
    rw [hrequests] at hover
    exact h.leaves p c r hget hover
  · intro p c sl hget
    rw [(hpubs p).2.2] at hget
    obtain ⟨hp, hsl, hclient, hopen, hpeers', hasks'⟩ := h.resolving p c sl hget
    rw [hpub, hslot, hslots, (hpubs p).1, hasks]
    exact ⟨hp, hsl, hclient, hopen, hnone _ _ hpeers', hasks'⟩
  · intro p c hop
    rw [(hpubs p).2.2]
    exact h.dropping p c hop
  · intro p c hop
    rw [(hpubs p).2.2, hasks]
    exact h.deleting p c hop
  · intro p rs ended hop r hr
    rw [hrequest, hrequests]
    exact h.closing p rs ended hop r hr

theorem endPeer {q : PeerID} {closed : PeerClosed}
    (h : ViewersSound t.toSession (.endPeer q closed :: code)) :
    ViewersSound (t.endPeer q closed).1.toSession code := by
  cases hopen : (t.peers q).closed with
  | true =>
    rw [Streams.endPeer_of_closed hopen]
    exact h.pop_endPeer hopen
  | false =>
    have hpubs := Streams.pubs_endPeer hopen closed
    have hpeers := Streams.peers_endPeer hopen closed
    have hrest := Streams.rest_endPeer t q closed
    have hclose : ViewersSound (t.endPeer q closed).1.toSession (.endPeer q closed :: code) := by
      refine h.closePeer (q := q) (fun p => ?_) (fun p c q' => ?_) (fun j => ?_)
        hrest.requests hrest.slots hrest.nextPub hrest.nextPeer hrest.nextRequest hrest.nextSlot
      · rw [hpubs]
        split
        · exact ⟨rfl, rfl, rfl⟩
        · exact ⟨rfl, rfl, rfl⟩
      · rw [hpubs]
        split
        · rename_i hheld
          dsimp only
          rw [InsertionMap.get?_delete]
          split
          · rename_i hc
            rw [← hc, hheld.2]
            exact ⟨(Option.some_ne_none _).symm.elim,
              fun hget => absurd (Option.some.inj hget.1).symm hget.2⟩
          · rename_i hc
            refine ⟨fun hget => ⟨hget, ?_⟩, fun hget => hget.1⟩
            rintro rfl
            exact hc (h.held p c _ hget).2.2.1
        · rename_i hheld
          refine ⟨fun hget => ⟨hget, ?_⟩, fun hget => hget.1⟩
          rintro rfl
          obtain ⟨-, howner, hclient, -⟩ := h.held p c _ hget
          exact hheld ⟨howner, hclient.symm ▸ hget⟩
      · rw [hpeers]
        split
        · rename_i hj
          rw [hj]
          exact ⟨rfl, rfl, rfl⟩
        · exact ⟨rfl, rfl, rfl⟩
    refine hclose.pop_endPeer ?_
    rw [hpeers, if_pos rfl]
    rfl

/-! ### Requests -/

/-- A request is pending no longer. -/
theorem settle (h : ViewersSound t.toSession code) {r : RequestID} {f : JoinRequest → JoinRequest}
    (hstream : (f (t.requests r)).stream = (t.requests r).stream)
    (hclient : (f (t.requests r)).clientId = (t.requests r).clientId)
    (hstate : (f (t.requests r)).state ≠ .pending)
    (hleaves : (f (t.requests r)).state.isOver = true → ∀ p c,
      (t.pubs p).pending.get? c = some r → RequestLeaves code p c) :
    ViewersSound (t.modifyRequest r f).toSession code := by
  have hrequests : ∀ j, (t.modifyRequest r f).requests j =
      if j = r then f (t.requests r) else t.requests j := fun j => rfl
  have hsame : ∀ j, ((t.modifyRequest r f).requests j).stream = (t.requests j).stream ∧
      ((t.modifyRequest r f).requests j).clientId = (t.requests j).clientId := by
    intro j
    rw [hrequests]
    split
    · rename_i hj
      rw [hj]
      exact ⟨hstream, hclient⟩
    · exact ⟨rfl, rfl⟩
  have hpending : ∀ j, ((t.modifyRequest r f).requests j).state = .pending →
      j ≠ r ∧ (t.requests j).state = .pending := by
    intro j hj
    rw [hrequests] at hj
    split at hj
    · exact absurd hj hstate
    · exact ⟨‹_›, hj⟩
  have hasks : ∀ p c, Asks (t.modifyRequest r f).toSession p c → Asks t.toSession p c := by
    rintro p c ⟨j, hj, hstate', hp, hc⟩
    rw [(hsame j).1] at hp
    rw [(hsame j).2] at hc
    exact ⟨j, hj, (hpending j hstate').2, hp, hc⟩
  constructor
  · exact h.held
  · exact h.live
  · exact h.ends
  · intro j hj hstate'
    rw [(hsame j).1, (hsame j).2]
    exact h.pending j hj (hpending j hstate').2
  · intro j hj hstate' hended
    rw [(hsame j).1] at hended ⊢
    exact h.closes j hj (hpending j hstate').2 hended
  · intro p c j hget
    rw [(hsame j).1, (hsame j).2]
    exact h.asked p c j hget
  · intro p c j hget hover
    rw [hrequests] at hover
    split at hover
    · rename_i hj
      exact hleaves hover p c (hj ▸ hget)
    · exact h.leaves p c j hget hover
  · intro p c sl hget
    obtain ⟨hp, hsl, hc, hopen, hpeers, hasks'⟩ := h.resolving p c sl hget
    exact ⟨hp, hsl, hc, hopen, hpeers, fun hask => hasks' (hasks p c hask)⟩
  · exact h.dropping
  · intro p c hop
    obtain ⟨hget, hasks'⟩ := h.deleting p c hop
    exact ⟨hget, fun hask => hasks' (hasks p c hask)⟩
  · intro p rs ended hop j hj
    rw [(hsame j).1]
    exact h.closing p rs ended hop j hj

theorem closeRequest (h : ViewersSound t.toSession code) (r : RequestID) {cause : RequestState}
    (hcause : cause ≠ .pending)
    (hleaves : ∀ p c, (t.pubs p).pending.get? c = some r → RequestLeaves code p c) :
    ViewersSound (t.closeRequest r cause).1.toSession code := by
  rw [Streams.closeRequest]
  split
  · exact h
  · exact h.settle rfl rfl hcause fun _ => hleaves

theorem state_closeRequest (t : Streams) (r : RequestID) {cause : RequestState}
    (hcause : cause ≠ .pending) : ((t.closeRequest r cause).1.requests r).state ≠ .pending := by
  rw [Streams.closeRequest]
  split
  · assumption
  · show ((t.modifyRequest r _).requests r).state ≠ .pending
    rw [Streams.requests_modifyRequest, if_pos rfl]
    exact hcause

/-- One of the loop of `finish` through the requests. -/
theorem closeRequests_cons {p : PubID} {r : RequestID} {rs : List RequestID} {ended : StreamEnded}
    (h : ViewersSound t.toSession (.closeRequests p (r :: rs) ended :: code)) :
    ViewersSound (t.closeRequest r .ended).1.toSession (.closeRequests p rs ended :: code) := by
  have hstream := (h.closing p _ ended List.mem_cons_self r List.mem_cons_self).2
  have hended : RequestState.ended ≠ .pending := nofun
  have hclosed := h.closeRequest r hended (fun p' c hget => by
    rw [← (h.asked p' c r hget).2.1, hstream]
    exact Or.inr (Or.inr ⟨_, ended, List.mem_cons_self⟩))
  have hstate := state_closeRequest t r hended
  refine hclosed.operations (fun p' c q _ hends => ?_) (fun r' hpending hends => ?_)
    (fun p' c hleaves => ?_) (fun p' c hop => ?_) (fun p' c hop => ?_) fun p' rs' e hop => ?_
  · rcases hends with ⟨rs', e, hop⟩ | ⟨qs, e, hop, hmem⟩ | ⟨x, hop⟩
    · rcases List.mem_cons.mp hop with heq | hop
      · obtain ⟨rfl, -, -⟩ := Op.closeRequests.inj heq
        exact Or.inl ⟨rs, ended, List.mem_cons_self⟩
      · exact Or.inl ⟨rs', e, List.mem_cons_of_mem _ hop⟩
    · have hop := (List.mem_cons.mp hop).resolve_left nofun
      exact Or.inr (Or.inl ⟨qs, e, List.mem_cons_of_mem _ hop, hmem⟩)
    · have hop := (List.mem_cons.mp hop).resolve_left nofun
      exact Or.inr (Or.inr ⟨x, List.mem_cons_of_mem _ hop⟩)
  · obtain ⟨rs', e, hop, hmem⟩ := hends
    rcases List.mem_cons.mp hop with heq | hop
    · obtain ⟨hp, rfl, rfl⟩ := Op.closeRequests.inj heq
      rw [hp]
      refine ⟨rs, e, List.mem_cons_self, (List.mem_cons.mp hmem).resolve_left ?_⟩
      rintro rfl
      exact hstate hpending
    · exact ⟨rs', e, List.mem_cons_of_mem _ hop, hmem⟩
  · rcases hleaves with hop | hop | ⟨rs', e, hop⟩
    · exact Or.inl (List.mem_cons_of_mem _ ((List.mem_cons.mp hop).resolve_left nofun))
    · exact Or.inr (Or.inl (List.mem_cons_of_mem _ ((List.mem_cons.mp hop).resolve_left nofun)))
    · rcases List.mem_cons.mp hop with heq | hop
      · obtain ⟨rfl, -, -⟩ := Op.closeRequests.inj heq
        exact Or.inr (Or.inr ⟨rs, ended, List.mem_cons_self⟩)
      · exact Or.inr (Or.inr ⟨rs', e, List.mem_cons_of_mem _ hop⟩)
  · exact hclosed.dropping p' c (List.mem_cons_of_mem _ ((List.mem_cons.mp hop).resolve_left nofun))
  · exact hclosed.deleting p' c (List.mem_cons_of_mem _ ((List.mem_cons.mp hop).resolve_left nofun))
  · rcases List.mem_cons.mp hop with heq | hop
    · obtain ⟨rfl, rfl, rfl⟩ := Op.closeRequests.inj heq
      exact fun r' hr' =>
        hclosed.closing p' _ e List.mem_cons_self r' (List.mem_cons_of_mem _ hr')
    · exact hclosed.closing p' rs' e (List.mem_cons_of_mem _ hop)

/-- The viewer takes the request back, or goes. -/
theorem dropRequest {p : PubID} {c : ClientID}
    (h : ViewersSound t.toSession (.dropRequest p c :: code)) :
    ViewersSound (t.dropRequest p c).1.toSession (.deletePending p c :: code) := by
  have hnone := h.dropping p c List.mem_cons_self
  have hswap : ∀ {u : Session}, ViewersSound u (.dropRequest p c :: code) →
      (u.pubs p).resolving.get? c = none → ¬Asks u p c →
      ViewersSound u (.deletePending p c :: code) := by
    intro u hu hresolving hasks
    refine (hu.push (.deletePending p c) nofun ?_ nofun).operations (fun p' c' q _ hends => ?_)
      (fun r' _ hends => ?_) (fun p' c' hleaves => ?_) (fun p' c' hop => ?_) (fun p' c' hop => ?_)
      fun p' rs' e hop => ?_
    · intro p' c' heq
      obtain ⟨rfl, rfl⟩ := Op.deletePending.inj heq
      exact ⟨hresolving, hasks⟩
    · rcases hends with ⟨rs', e, hop⟩ | ⟨qs, e, hop, hmem⟩ | ⟨x, hop⟩
      · exact Or.inl ⟨rs', e, by simpa using hop⟩
      · exact Or.inr (Or.inl ⟨qs, e, by simpa using hop, hmem⟩)
      · exact Or.inr (Or.inr ⟨x, by simpa using hop⟩)
    · obtain ⟨rs', e, hop, hmem⟩ := hends
      exact ⟨rs', e, by simpa using hop, hmem⟩
    · rcases hleaves with hop | hop | ⟨rs', e, hop⟩
      · rcases List.mem_cons.mp ((List.mem_cons.mp hop).resolve_left nofun) with heq | hop
        · obtain ⟨rfl, rfl⟩ := Op.dropRequest.inj heq
          exact Or.inr (Or.inl List.mem_cons_self)
        · exact Or.inl (List.mem_cons_of_mem _ hop)
      · exact Or.inr (Or.inl (by simpa using hop))
      · exact Or.inr (Or.inr ⟨rs', e, by simpa using hop⟩)
    · exact hu.dropping p' c'
        (List.mem_cons_of_mem _ ((List.mem_cons.mp hop).resolve_left nofun))
    · rcases List.mem_cons.mp hop with heq | hop
      · obtain ⟨rfl, rfl⟩ := Op.deletePending.inj heq
        exact ⟨hresolving, hasks⟩
      · exact hu.deleting p' c' (List.mem_cons_of_mem _ hop)
    · exact hu.closing p' rs' e
        (List.mem_cons_of_mem _ ((List.mem_cons.mp hop).resolve_left nofun))
  rw [Streams.dropRequest]
  split
  · rename_i hget
    refine hswap h hnone (h.not_asks fun r hget' => ?_)
    rw [hget] at hget'
    cases hget'
  · rename_i r hget
    have hwithdrawn : RequestState.withdrawn ≠ .pending := nofun
    have hclosed := h.closeRequest r hwithdrawn (fun p' c' hget' => by
      obtain ⟨-, rfl, rfl⟩ := h.asked p' c' r hget'
      obtain ⟨-, hp, hc⟩ := h.asked p c r hget
      rw [hp, hc]
      exact Or.inl List.mem_cons_self)
    have hstate := state_closeRequest t r hwithdrawn
    have hpubs : (t.closeRequest r .withdrawn).1.pubs = t.pubs := by
      rw [Streams.closeRequest]
      split
      · rfl
      · rfl
    refine hswap hclosed (by rw [hpubs, hnone]) (hclosed.not_asks fun r' hget' => ?_)
    rw [hpubs, hget] at hget'
    exact Option.some.inj hget' ▸ hstate

/-! ### Streams -/

theorem deletePending {p : PubID} {c : ClientID}
    (h : ViewersSound t.toSession (.deletePending p c :: code)) :
    ViewersSound (t.deletePending p c).toSession code := by
  have hasks := (h.deleting p c List.mem_cons_self).2
  have hpubs : ∀ j, ((t.deletePending p c).pubs j).ended = (t.pubs j).ended ∧
      ((t.deletePending p c).pubs j).peers = (t.pubs j).peers ∧
      ((t.deletePending p c).pubs j).resolving = (t.pubs j).resolving := by
    intro j
    unfold Streams.deletePending
    rw [Streams.pubs_modifyPub]
    split
    · rename_i hj
      rw [hj]
      exact ⟨rfl, rfl, rfl⟩
    · exact ⟨rfl, rfl, rfl⟩
  have hpending : ∀ j c', ((t.deletePending p c).pubs j).pending.get? c' =
      if j = p ∧ c = c' then none else (t.pubs j).pending.get? c' := by
    intro j c'
    unfold Streams.deletePending
    rw [Streams.pubs_modifyPub]
    split
    · rename_i hj
      subst hj
      dsimp only
      rw [InsertionMap.get?_delete]
      simp only [true_and]
    · rename_i hj
      rw [if_neg fun hboth => hj hboth.1]
  constructor
  · intro p' c' q hget
    rw [(hpubs p').2.1] at hget
    exact h.held p' c' q hget
  · intro q hq hopen p' howner
    rw [(hpubs p').2.1]
    exact h.live q hq hopen p' howner
  · intro p' c' q hended hget
    rw [(hpubs p').1] at hended
    rw [(hpubs p').2.1] at hget
    rcases h.ends p' c' q hended hget with ⟨rs, e, hop⟩ | ⟨qs, e, hop, hmem⟩ | ⟨x, hop⟩
    · exact Or.inl ⟨rs, e, (List.mem_cons.mp hop).resolve_left Op.noConfusion⟩
    · exact Or.inr (Or.inl ⟨qs, e, (List.mem_cons.mp hop).resolve_left Op.noConfusion, hmem⟩)
    · exact Or.inr (Or.inr ⟨x, (List.mem_cons.mp hop).resolve_left Op.noConfusion⟩)
  · intro r hr hstate
    obtain ⟨hp, hget, hpeers⟩ := h.pending r hr hstate
    refine ⟨hp, ?_, ?_⟩
    · rw [hpending, if_neg]
      · exact hget
      · rintro ⟨hp', hc'⟩
        exact hasks ⟨r, hr, hstate, hp', hc'.symm⟩
    · rw [(hpubs _).2.1]
      exact hpeers
  · intro r hr hstate hended
    rw [(hpubs _).1] at hended
    obtain ⟨rs, e, hop, hmem⟩ := h.closes r hr hstate hended
    exact ⟨rs, e, (List.mem_cons.mp hop).resolve_left Op.noConfusion, hmem⟩
  · intro p' c' r hget
    rw [hpending] at hget
    split at hget
    · cases hget
    · exact h.asked p' c' r hget
  · intro p' c' r hget hover
    rw [hpending] at hget
    split at hget
    · cases hget
    rename_i hne
    rcases h.leaves p' c' r hget hover with hop | hop | ⟨rs, e, hop⟩
    · exact Or.inl ((List.mem_cons.mp hop).resolve_left Op.noConfusion)
    · refine Or.inr (Or.inl ((List.mem_cons.mp hop).resolve_left fun heq => hne ?_))
      obtain ⟨rfl, rfl⟩ := Op.deletePending.inj heq
      exact ⟨rfl, rfl⟩
    · exact Or.inr (Or.inr ⟨rs, e, (List.mem_cons.mp hop).resolve_left Op.noConfusion⟩)
  · intro p' c' sl hget
    rw [(hpubs p').2.2] at hget
    rw [(hpubs p').1, (hpubs p').2.1]
    exact h.resolving p' c' sl hget
  · intro p' c' hop
    rw [(hpubs p').2.2]
    exact h.dropping p' c' (List.mem_cons_of_mem _ hop)
  · intro p' c' hop
    rw [(hpubs p').2.2]
    exact h.deleting p' c' (List.mem_cons_of_mem _ hop)
  · intro p' rs e hop
    exact h.closing p' rs e (List.mem_cons_of_mem _ hop)

/-- A stream that has ended lets go of its requests, which are all closed, and goes on to
its peers. -/
theorem closeRequests_nil {p : PubID} {ended : StreamEnded}
    (h : ViewersSound t.toSession (.closeRequests p [] ended :: code))
    (hended : (t.pubs p).ended = true) (hone : ∀ rs e, Op.closeRequests p rs e ∉ code) :
    ViewersSound (t.closeRequests p ended []).1.toSession
      ((t.closeRequests p ended []).2 ++ code) := by
  have hstream : ∀ r < t.nextRequest, (t.requests r).state = .pending →
      (t.requests r).stream ≠ p := by
    intro r hr hstate hp
    obtain ⟨rs, e, hop, hmem⟩ := h.closes r hr hstate (hp.symm ▸ hended)
    rw [hp] at hop
    rcases List.mem_cons.mp hop with heq | hop
    · obtain ⟨-, rfl, -⟩ := Op.closeRequests.inj heq
      cases hmem
    · exact hone rs e hop
  have hpubs : ∀ j, ((t.closeRequests p ended []).1.pubs j).ended = (t.pubs j).ended ∧
      ((t.closeRequests p ended []).1.pubs j).peers = (t.pubs j).peers ∧
      ((t.closeRequests p ended []).1.pubs j).resolving = (t.pubs j).resolving := by
    intro j
    unfold Streams.closeRequests
    rw [Streams.pubs_modifyPub]
    split
    · rename_i hj
      rw [hj]
      exact ⟨rfl, rfl, rfl⟩
    · exact ⟨rfl, rfl, rfl⟩
  have hpending : ∀ j, ((t.closeRequests p ended []).1.pubs j).pending =
      if j = p then .empty else (t.pubs j).pending := by
    intro j
    unfold Streams.closeRequests
    rw [Streams.pubs_modifyPub]
    split
    · rfl
    · rfl
  constructor
  · intro p' c' q hget
    rw [(hpubs p').2.1] at hget
    exact h.held p' c' q hget
  · intro q hq hopen p' howner
    rw [(hpubs p').2.1]
    exact h.live q hq hopen p' howner
  · intro p' c' q hended' hget
    rw [(hpubs p').1] at hended'
    rw [(hpubs p').2.1] at hget
    rcases h.ends p' c' q hended' hget with ⟨rs, e, hop⟩ | ⟨qs, e, hop, hmem⟩ | ⟨x, hop⟩
    · rcases List.mem_cons.mp hop with heq | hop
      · obtain ⟨rfl, -, -⟩ := Op.closeRequests.inj heq
        refine Or.inr (Or.inl ⟨_, ended, List.mem_cons_self, ?_⟩)
        exact List.mem_map_of_mem (InsertionMap.mem_entries.mpr hget)
      · exact Or.inl ⟨rs, e, List.mem_cons_of_mem _ hop⟩
    · have hop := (List.mem_cons.mp hop).resolve_left Op.noConfusion
      exact Or.inr (Or.inl ⟨qs, e, List.mem_cons_of_mem _ hop, hmem⟩)
    · have hop := (List.mem_cons.mp hop).resolve_left Op.noConfusion
      exact Or.inr (Or.inr ⟨x, List.mem_cons_of_mem _ hop⟩)
  · intro r hr hstate
    obtain ⟨hp, hget, hpeers⟩ := h.pending r hr hstate
    refine ⟨hp, ?_, ?_⟩
    · show ((t.closeRequests p ended []).1.pubs (t.requests r).stream).pending.get?
        (t.requests r).clientId = some r
      rw [hpending, if_neg (hstream r hr hstate)]
      exact hget
    · rw [(hpubs _).2.1]
      exact hpeers
  · intro r hr hstate hended'
    rw [(hpubs _).1] at hended'
    obtain ⟨rs, e, hop, hmem⟩ := h.closes r hr hstate hended'
    refine ⟨rs, e, List.mem_cons_of_mem _ ((List.mem_cons.mp hop).resolve_left fun heq => ?_), hmem⟩
    exact hstream r hr hstate (Op.closeRequests.inj heq).1
  · intro p' c' r hget
    rw [hpending] at hget
    split at hget
    · cases hget
    · exact h.asked p' c' r hget
  · intro p' c' r hget hover
    rw [hpending] at hget
    split at hget
    · cases hget
    rename_i hne
    rcases h.leaves p' c' r hget hover with hop | hop | ⟨rs, e, hop⟩
    · exact Or.inl (List.mem_cons_of_mem _ ((List.mem_cons.mp hop).resolve_left Op.noConfusion))
    · exact Or.inr (Or.inl (List.mem_cons_of_mem _ ((List.mem_cons.mp hop).resolve_left Op.noConfusion)))
    · refine Or.inr (Or.inr ⟨rs, e, List.mem_cons_of_mem _
        ((List.mem_cons.mp hop).resolve_left fun heq => hne ?_)⟩)
      exact (Op.closeRequests.inj heq).1
  · intro p' c' sl hget
    rw [(hpubs p').2.2] at hget
    rw [(hpubs p').1, (hpubs p').2.1]
    exact h.resolving p' c' sl hget
  · intro p' c' hop
    rw [(hpubs p').2.2]
    exact h.dropping p' c' (List.mem_cons_of_mem _ ((List.mem_cons.mp hop).resolve_left Op.noConfusion))
  · intro p' c' hop
    rw [(hpubs p').2.2]
    exact h.deleting p' c' (List.mem_cons_of_mem _ ((List.mem_cons.mp hop).resolve_left Op.noConfusion))
  · intro p' rs e hop
    exact h.closing p' rs e (List.mem_cons_of_mem _ ((List.mem_cons.mp hop).resolve_left Op.noConfusion))

/-- One of the loop of `finish` through the peers. -/
theorem endPeers_cons {p : PubID} {q : PeerID} {qs : List PeerID} {ended : StreamEnded}
    (h : ViewersSound s (.endPeers p (q :: qs) ended :: code)) (closed : PeerClosed) :
    ViewersSound s (.endPeer q closed :: .endPeers p qs ended :: code) := by
  have hcode : ∀ op ∈ code, op ∈ Op.endPeer q closed :: .endPeers p qs ended :: code :=
    fun _ hop => List.mem_cons_of_mem _ (List.mem_cons_of_mem _ hop)
  have hold : ∀ {op}, op ∈ Op.endPeer q closed :: .endPeers p qs ended :: code →
      op ≠ .endPeer q closed → op ≠ .endPeers p qs ended → op ∈ code := by
    intro op hop hne hne'
    exact (List.mem_cons.mp ((List.mem_cons.mp hop).resolve_left hne)).resolve_left hne'
  refine h.operations (fun p' c q' _ hends => ?_) (fun r _ hends => ?_) (fun p' c hleaves => ?_)
    (fun p' c hop => ?_) (fun p' c hop => ?_) fun p' rs e hop => ?_
  · rcases hends with ⟨rs, e, hop⟩ | ⟨qs', e, hop, hmem⟩ | ⟨x, hop⟩
    · exact Or.inl ⟨rs, e, hcode _ ((List.mem_cons.mp hop).resolve_left nofun)⟩
    · rcases List.mem_cons.mp hop with heq | hop
      · obtain ⟨rfl, rfl, rfl⟩ := Op.endPeers.inj heq
        rcases List.mem_cons.mp hmem with rfl | hmem
        · exact Or.inr (Or.inr ⟨closed, List.mem_cons_self⟩)
        · exact Or.inr (Or.inl ⟨qs, e, List.mem_cons_of_mem _ List.mem_cons_self, hmem⟩)
      · exact Or.inr (Or.inl ⟨qs', e, hcode _ hop, hmem⟩)
    · exact Or.inr (Or.inr ⟨x, hcode _ ((List.mem_cons.mp hop).resolve_left nofun)⟩)
  · obtain ⟨rs, e, hop, hmem⟩ := hends
    exact ⟨rs, e, hcode _ ((List.mem_cons.mp hop).resolve_left nofun), hmem⟩
  · rcases hleaves with hop | hop | ⟨rs, e, hop⟩
    · exact Or.inl (hcode _ ((List.mem_cons.mp hop).resolve_left nofun))
    · exact Or.inr (Or.inl (hcode _ ((List.mem_cons.mp hop).resolve_left nofun)))
    · exact Or.inr (Or.inr ⟨rs, e, hcode _ ((List.mem_cons.mp hop).resolve_left nofun)⟩)
  · exact h.dropping p' c (List.mem_cons_of_mem _ (hold hop nofun nofun))
  · exact h.deleting p' c (List.mem_cons_of_mem _ (hold hop nofun nofun))
  · exact h.closing p' rs e (List.mem_cons_of_mem _ (hold hop nofun nofun))

theorem endPeers_nil {p : PubID} {ended : StreamEnded}
    (h : ViewersSound t.toSession (.endPeers p [] ended :: code)) :
    ViewersSound (t.endPeers p ended []).1.toSession code := by
  have hpop : ViewersSound t.toSession code := by
    refine h.pop (fun p' c q' _ hends => ?_) (fun r _ hends => ?_) fun p' c hleaves => ?_
    · rcases hends with ⟨rs, e, hop⟩ | ⟨qs, e, hop, hmem⟩ | ⟨x, hop⟩
      · exact Or.inl ⟨rs, e, (List.mem_cons.mp hop).resolve_left nofun⟩
      · rcases List.mem_cons.mp hop with heq | hop
        · obtain ⟨-, rfl, -⟩ := Op.endPeers.inj heq
          cases hmem
        · exact Or.inr (Or.inl ⟨qs, e, hop, hmem⟩)
      · exact Or.inr (Or.inr ⟨x, (List.mem_cons.mp hop).resolve_left nofun⟩)
    · obtain ⟨rs, e, hop, hmem⟩ := hends
      exact ⟨rs, e, (List.mem_cons.mp hop).resolve_left nofun, hmem⟩
    · rcases hleaves with hop | hop | ⟨rs, e, hop⟩
      · exact Or.inl ((List.mem_cons.mp hop).resolve_left nofun)
      · exact Or.inr (Or.inl ((List.mem_cons.mp hop).resolve_left nofun))
      · exact Or.inr (Or.inr ⟨rs, e, (List.mem_cons.mp hop).resolve_left nofun⟩)
  exact hpop.congr (samePub_modifyPub t ⟨rfl, rfl, rfl, rfl⟩) (fun q => .refl _) rfl
    (fun sl => rfl) rfl rfl rfl rfl

/-- A stream ends: its requests are the first to close. -/
theorem finish (h : ViewersSound t.toSession code) {p : PubID} {ended : StreamEnded} :
    ViewersSound (t.finish p ended).1.toSession ((t.finish p ended).2 ++ code) := by
  unfold Streams.finish
  split
  · exact h
  have hpubs : ∀ j, ((t.modifyPub p fun pub =>
      { pub with ended := true, slots := [], resolving := .empty }).pubs j).peers =
        (t.pubs j).peers ∧ ((t.modifyPub p fun pub =>
      { pub with ended := true, slots := [], resolving := .empty }).pubs j).pending =
        (t.pubs j).pending := by
    intro j
    rw [Streams.pubs_modifyPub]
    split
    · rename_i hj
      rw [hj]
      exact ⟨rfl, rfl⟩
    · exact ⟨rfl, rfl⟩
  have hresolving : ∀ j, ((t.modifyPub p fun pub =>
      { pub with ended := true, slots := [], resolving := .empty }).pubs j).resolving =
        if j = p then .empty else (t.pubs j).resolving := by
    intro j
    rw [Streams.pubs_modifyPub]
    split
    · rfl
    · rfl
  have hended : ∀ j, ((t.modifyPub p fun pub =>
      { pub with ended := true, slots := [], resolving := .empty }).pubs j).ended =
        if j = p then true else (t.pubs j).ended := by
    intro j
    rw [Streams.pubs_modifyPub]
    split
    · rfl
    · rfl
  have hcode : ∀ op ∈ code, op ∈
      [Op.closeRequests p ((t.pubs p).pending.entries.map Prod.snd) ended] ++ code :=
    fun _ => List.mem_append_right _
  have hold : ∀ {op}, op ∈
      [Op.closeRequests p ((t.pubs p).pending.entries.map Prod.snd) ended] ++ code →
      op ≠ .closeRequests p ((t.pubs p).pending.entries.map Prod.snd) ended → op ∈ code :=
    fun hop hne => (List.mem_cons.mp hop).resolve_left hne
  constructor
  · intro p' c' q hget
    rw [(hpubs p').1] at hget
    exact h.held p' c' q hget
  · intro q hq hopen p' howner
    rw [(hpubs p').1]
    exact h.live q hq hopen p' howner
  · intro p' c' q hended' hget
    rw [(hpubs p').1] at hget
    rw [hended] at hended'
    split at hended'
    · rename_i hp
      subst hp
      exact Or.inl ⟨_, ended, List.mem_append_left _ List.mem_cons_self⟩
    · exact (h.ends p' c' q hended' hget).mono hcode
  · intro r hr hstate
    rw [(hpubs _).1, (hpubs _).2]
    exact h.pending r hr hstate
  · intro r hr hstate hended'
    rw [hended] at hended'
    split at hended'
    · rename_i hp
      have hget := (h.pending r hr hstate).2.1
      change (t.requests r).stream = p at hp
      show RequestEnds _ (t.requests r).stream r
      rw [hp] at hget ⊢
      exact ⟨_, ended, List.mem_append_left _ List.mem_cons_self,
        List.mem_map_of_mem (InsertionMap.mem_entries.mpr hget)⟩
    · exact (h.closes r hr hstate hended').mono hcode
  · intro p' c' r hget
    rw [(hpubs p').2] at hget
    exact h.asked p' c' r hget
  · intro p' c' r hget hover
    rw [(hpubs p').2] at hget
    exact (h.leaves p' c' r hget hover).mono hcode
  · intro p' c' sl hget
    rw [hresolving] at hget
    split at hget
    · cases hget
    rename_i hp
    rw [(hpubs p').1, hended, if_neg hp]
    exact h.resolving p' c' sl hget
  · intro p' c' hop
    rw [hresolving]
    split
    · rfl
    · exact h.dropping p' c' (hold hop Op.noConfusion)
  · intro p' c' hop
    rw [hresolving]
    obtain ⟨hget, hasks⟩ := h.deleting p' c' (hold hop Op.noConfusion)
    refine ⟨?_, hasks⟩
    split
    · rfl
    · exact hget
  · intro p' rs e hop
    rcases List.mem_cons.mp hop with heq | hop
    · obtain ⟨rfl, rfl, rfl⟩ := Op.closeRequests.inj heq
      intro r hr
      obtain ⟨⟨c', r'⟩, hentry, rfl⟩ := List.mem_map.mp hr
      obtain ⟨hr', hstream, -⟩ := h.asked p' c' r' (InsertionMap.mem_entries.mp hentry)
      exact ⟨hr', hstream⟩
    · exact h.closing p' rs e hop

end ViewersSound

end Teamspeak.Stream
