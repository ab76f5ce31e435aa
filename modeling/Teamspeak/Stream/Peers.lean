import Teamspeak.Stream

/-!
# What a peer's end does

`endPeer` closes one peer and lets go of it where it is held, which is all it does.

* `peers_endPeer`, `pubs_endPeer`, `watching_endPeer`: the objects and the maps after it.
-/

namespace Teamspeak.Stream

/-- What peers are, for what holds them. -/
def SamePeer (a b : Peer) : Prop :=
  b.owner = a.owner ∧ b.clientId = a.clientId ∧ b.closed = a.closed

theorem SamePeer.refl (peer : Peer) : SamePeer peer peer := ⟨rfl, rfl, rfl⟩

theorem samePeer_modifyPeer (t : Streams) {q : PeerID} {f : Peer → Peer}
    (hf : SamePeer (t.peers q) (f (t.peers q))) (j : PeerID) :
    SamePeer (t.peers j) ((t.modifyPeer q f).peers j) := by
  rw [Streams.peers_modifyPeer]
  split
  · rename_i hj
    exact hj ▸ hf
  · exact .refl _

namespace Streams

variable {s : Streams} {q : PeerID} {closed : PeerClosed}

/-- What becomes of a peer that closes. -/
def closedPeer (peer : Peer) (closed : PeerClosed) : Peer :=
  { peer with closed := true, emitted := peer.emitted ++ [.closed closed] }

theorem endPeer_of_closed (h : (s.peers q).closed = true) (closed : PeerClosed) :
    s.endPeer q closed = (s, []) := if_pos h

theorem peers_linkClosed (s : Streams) (q : PeerID) : (s.linkClosed q).peers = s.peers := by
  rw [linkClosed]
  cases (s.peers q).owner with
  | viewer p =>
    dsimp only
    split
    · rfl
    · rfl
  | view w => rfl

theorem pubs_linkClosed (s : Streams) (q : PeerID) (p : PubID) : (s.linkClosed q).pubs p =
    if (s.peers q).owner = .viewer p ∧ (s.pubs p).peers.get? (s.peers q).clientId = some q then
      { s.pubs p with
        peers := (s.pubs p).peers.delete (s.peers q).clientId
        closedViewers :=
          remember maxClosedViewers (s.peers q).clientId (s.pubs p).closedViewers }
    else s.pubs p := by
  rw [linkClosed]
  dsimp only
  split
  · rename_i p' howner
    by_cases hp : p = p'
    · subst hp
      by_cases hheld : (s.pubs p).peers.get? (s.peers q).clientId = some q
      · rw [if_pos hheld, if_pos ⟨howner, hheld⟩, pubs_modifyPub, if_pos rfl]
      · rw [if_neg hheld, if_neg fun h => hheld h.2]
    · have hne : ¬ ((s.peers q).owner = .viewer p ∧
          (s.pubs p).peers.get? (s.peers q).clientId = some q) := by
        rintro ⟨howner', -⟩
        rw [howner] at howner'
        exact hp (Owner.viewer.inj howner').symm
      rw [if_neg hne]
      split
      · rw [pubs_modifyPub, if_neg hp]
      · rfl
  · rename_i w howner
    have hne : ¬ ((s.peers q).owner = .viewer p ∧
        (s.pubs p).peers.get? (s.peers q).clientId = some q) := by
      rintro ⟨howner', -⟩
      rw [howner] at howner'
      cases howner'
    rw [if_neg hne]

theorem watching_linkClosed (s : Streams) (q : PeerID) : (s.linkClosed q).watching =
    match (s.peers q).owner with
    | .viewer _ => s.watching
    | .view w =>
      if ((s.watching.get? (s.watches w).id).bind fun w => (s.watches w).view) = some q then
        s.watching.delete (s.watches w).id
      else s.watching := by
  rw [linkClosed]
  cases (s.peers q).owner with
  | viewer p =>
    dsimp only
    split
    · rfl
    · rfl
  | view w => rfl

/-! ### The end -/

/-- What the end of a peer leaves as it was. -/
structure Rest (s s' : Session) : Prop where
  published : s'.published = s.published
  requests : s'.requests = s.requests
  slots : s'.slots = s.slots
  watches : s'.watches = s.watches
  nextPub : s'.nextPub = s.nextPub
  nextPeer : s'.nextPeer = s.nextPeer
  nextRequest : s'.nextRequest = s.nextRequest
  nextSlot : s'.nextSlot = s.nextSlot
  nextWatch : s'.nextWatch = s.nextWatch

theorem rest_endPeer (s : Streams) (q : PeerID) (closed : PeerClosed) :
    Rest s.toSession (s.endPeer q closed).1.toSession := by
  rw [endPeer]
  split
  · exact ⟨rfl, rfl, rfl, rfl, rfl, rfl, rfl, rfl, rfl⟩
  rw [linkClosed]
  dsimp only
  split
  · split
    · exact ⟨rfl, rfl, rfl, rfl, rfl, rfl, rfl, rfl, rfl⟩
    · exact ⟨rfl, rfl, rfl, rfl, rfl, rfl, rfl, rfl, rfl⟩
  · exact ⟨rfl, rfl, rfl, rfl, rfl, rfl, rfl, rfl, rfl⟩

theorem peers_endPeer (h : (s.peers q).closed = false) (closed : PeerClosed) (j : PeerID) :
    (s.endPeer q closed).1.peers j =
      if j = q then closedPeer (s.peers q) closed else s.peers j := by
  rw [endPeer, if_neg (Bool.eq_false_iff.mp h), peers_modifyPeer, peers_linkClosed,
    peers_modifyPeer, peers_modifyPeer, if_pos rfl]
  by_cases hj : j = q
  · rw [if_pos hj, if_pos hj, closedPeer]
  · rw [if_neg hj, if_neg hj, if_neg hj]

theorem pubs_endPeer (h : (s.peers q).closed = false) (closed : PeerClosed) (p : PubID) :
    (s.endPeer q closed).1.pubs p =
      if (s.peers q).owner = .viewer p ∧ (s.pubs p).peers.get? (s.peers q).clientId = some q then
        { s.pubs p with
          peers := (s.pubs p).peers.delete (s.peers q).clientId
          closedViewers :=
            remember maxClosedViewers (s.peers q).clientId (s.pubs p).closedViewers }
      else s.pubs p := by
  rw [endPeer, if_neg (Bool.eq_false_iff.mp h)]
  have hlink := pubs_linkClosed (s.modifyPeer q fun peer => { peer with closed := true }) q p
  rw [peers_modifyPeer, if_pos rfl] at hlink
  exact hlink

theorem watching_endPeer (h : (s.peers q).closed = false) (closed : PeerClosed) :
    (s.endPeer q closed).1.watching =
      match (s.peers q).owner with
      | .viewer _ => s.watching
      | .view w =>
        if ((s.watching.get? (s.watches w).id).bind fun w => (s.watches w).view) = some q then
          s.watching.delete (s.watches w).id
        else s.watching := by
  rw [endPeer, if_neg (Bool.eq_false_iff.mp h)]
  have hlink := watching_linkClosed (s.modifyPeer q fun peer => { peer with closed := true }) q
  rw [peers_modifyPeer, if_pos rfl] at hlink
  exact hlink

end Streams

end Teamspeak.Stream
