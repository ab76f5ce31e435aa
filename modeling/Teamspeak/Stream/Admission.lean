import Teamspeak.Stream.Viewers

/-!
# How a client becomes a viewer

A client that asks to watch is looked up, then its request is announced and pending, and
once accepted it has a peer.  At each point it is at no other.

* `ViewersSound.requestViewer`, `ViewersSound.announce`, `ViewersSound.accepting`
* `ViewersSound.dropPending`: it takes the request back, or goes.
-/

namespace Teamspeak.Stream.ViewersSound

variable {t : Streams} {code : List Op} {p : PubID} {c : ClientID}

/-! ### Peers -/

/-- A client with no request left gets a peer. -/
theorem openViewer (h : ViewersSound t.toSession code) (hp : p < t.nextPub)
    (hnone : (t.pubs p).peers.get? c = none) (hresolving : (t.pubs p).resolving.get? c = none)
    (hasks : ¬Asks t.toSession p c)
    (hended : (t.pubs p).ended = true → ∃ rs e, Op.closeRequests p rs e ∈ code) :
    ViewersSound (t.openViewer p c).toSession code := by
  have hpubs : ∀ j, ((t.openViewer p c).pubs j).ended = (t.pubs j).ended ∧
      ((t.openViewer p c).pubs j).pending = (t.pubs j).pending ∧
      ((t.openViewer p c).pubs j).resolving = (t.pubs j).resolving := by
    intro j
    rw [Streams.openViewer, Streams.pubs_modifyPub]
    split
    · rename_i hj
      rw [hj]
      exact ⟨rfl, rfl, rfl⟩
    · exact ⟨rfl, rfl, rfl⟩
  have hmap : ∀ j c', ((t.openViewer p c).pubs j).peers.get? c' =
      if j = p ∧ c = c' then some t.nextPeer else (t.pubs j).peers.get? c' := by
    intro j c'
    rw [Streams.openViewer, Streams.pubs_modifyPub]
    split
    · rename_i hj
      subst hj
      show (InsertionMap.set _ c _).get? c' = _
      rw [InsertionMap.get?_set]
      simp only [true_and]
      rfl
    · rename_i hj
      rw [if_neg fun hboth => hj hboth.1]
      rfl
  have hnew : (t.openViewer p c).peers t.nextPeer =
      { streamId := (t.pubs p).id, clientId := c, owner := .viewer p } := if_pos rfl
  have hold : ∀ q, q < t.nextPeer → (t.openViewer p c).peers q = t.peers q :=
    fun q hq => if_neg (Nat.ne_of_lt hq)
  have hother : ∀ j c', (t.pubs j).peers.get? c' ≠ none → ¬ (j = p ∧ c = c') := by
    rintro j c' hsome ⟨rfl, rfl⟩
    exact hsome hnone
  constructor
  · intro p' c' q hget
    rw [hmap] at hget
    split at hget
    · rename_i hboth
      cases hget
      rw [hnew]
      exact ⟨Nat.lt_succ_self _, by rw [hboth.1], hboth.2, rfl⟩
    · obtain ⟨hq, hrest⟩ := h.held p' c' q hget
      rw [hold q hq]
      exact ⟨Nat.lt_succ_of_lt hq, hrest⟩
  · intro q hq hopen p' howner
    rcases Nat.lt_succ_iff_lt_or_eq.mp hq with hlt | rfl
    · rw [hold q hlt] at hopen howner ⊢
      obtain ⟨hp', hget⟩ := h.live q hlt hopen p' howner
      refine ⟨hp', ?_⟩
      rw [hmap, if_neg (hother _ _ (hget ▸ Option.some_ne_none q)), hget]
    · rw [hnew] at howner ⊢
      obtain rfl := Owner.viewer.inj howner
      exact ⟨hp, by rw [hmap, if_pos ⟨rfl, rfl⟩]⟩
  · intro p' c' q hended' hget
    rw [(hpubs p').1] at hended'
    rw [hmap] at hget
    split at hget
    · rename_i hboth
      rw [hboth.1] at hended' ⊢
      exact Or.inl (hended hended')
    · exact h.ends p' c' q hended' hget
  · intro r hr hstate
    obtain ⟨hp', hget, hpeers⟩ := h.pending r hr hstate
    refine ⟨hp', ?_, ?_⟩
    · rw [(hpubs _).2.1]
      exact hget
    · rw [hmap, if_neg]
      · exact hpeers
      · rintro ⟨hp'', hc⟩
        exact hasks ⟨r, hr, hstate, hp'', hc.symm⟩
  · intro r hr hstate hended'
    rw [(hpubs _).1] at hended'
    exact h.closes r hr hstate hended'
  · intro p' c' r hget
    rw [(hpubs p').2.1] at hget
    exact h.asked p' c' r hget
  · intro p' c' r hget hover
    rw [(hpubs p').2.1] at hget
    exact h.leaves p' c' r hget hover
  · intro p' c' sl hget
    rw [(hpubs p').2.2] at hget
    obtain ⟨hp', hsl, hc, hopen, hpeers, hasks'⟩ := h.resolving p' c' sl hget
    rw [(hpubs p').1]
    refine ⟨hp', hsl, hc, hopen, ?_, hasks'⟩
    rw [hmap, if_neg]
    · exact hpeers
    · rintro ⟨rfl, rfl⟩
      rw [hresolving] at hget
      cases hget
  · intro p' c' hop
    rw [(hpubs p').2.2]
    exact h.dropping p' c' hop
  · intro p' c' hop
    rw [(hpubs p').2.2]
    exact h.deleting p' c' hop
  · exact h.closing

theorem accepting {r : RequestID} (h : ViewersSound t.toSession code) (hr : r < t.nextRequest)
    (hstate : (t.requests r).state = .pending) : ViewersSound (t.accepting r).toSession code := by
  obtain ⟨hp, hget, hpeers⟩ := h.pending r hr hstate
  have hresolving : (t.pubs (t.requests r).stream).resolving.get? (t.requests r).clientId =
      none := by
    rw [Option.eq_none_iff_forall_ne_some]
    intro sl hsl
    obtain ⟨-, -, -, -, -, hasks⟩ := h.resolving _ _ sl hsl
    exact hasks ⟨r, hr, hstate, rfl, rfl⟩
  have hsettled := h.settle (r := r) (f := fun request => { request with state := .accepted }) rfl
    rfl nofun nofun
  refine (hsettled.openViewer (p := (t.requests r).stream) (c := (t.requests r).clientId) hp hpeers
    hresolving (hsettled.not_asks fun r' hget' => ?_) fun hended => ?_)
  · have hr' : r = r' := Option.some.inj (hget.symm.trans hget')
    subst hr'
    rw [Streams.requests_modifyRequest, if_pos rfl]
    nofun
  · obtain ⟨rs, e, hop, -⟩ := h.closes r hr hstate hended
    exact ⟨rs, e, hop⟩

theorem openView (h : ViewersSound t.toSession code) (w : WatchID) :
    ViewersSound (t.openView w).toSession code := by
  have hnew : ((t.openView w).peers t.nextPeer).owner = .view w := by
    rw [Streams.openView]
    exact congrArg Peer.owner (if_pos rfl)
  have hold : ∀ q, q < t.nextPeer → (t.openView w).peers q = t.peers q :=
    fun q hq => if_neg (Nat.ne_of_lt hq)
  constructor
  · intro p c q hget
    obtain ⟨hq, hrest⟩ := h.held p c q hget
    rw [hold q hq]
    exact ⟨Nat.lt_succ_of_lt hq, hrest⟩
  · intro q hq hopen p howner
    rcases Nat.lt_succ_iff_lt_or_eq.mp hq with hlt | rfl
    · rw [hold q hlt] at hopen howner ⊢
      exact h.live q hlt hopen p howner
    · rw [hnew] at howner
      cases howner
  · exact h.ends
  · exact h.pending
  · exact h.closes
  · exact h.asked
  · exact h.leaves
  · exact h.resolving
  · exact h.dropping
  · exact h.deleting
  · exact h.closing

/-! ### Requests -/

theorem unresolve (h : ViewersSound t.toSession code) {f : Published → Published}
    (hf : (f (t.pubs p)).ended = (t.pubs p).ended ∧ (f (t.pubs p)).peers = (t.pubs p).peers ∧
      (f (t.pubs p)).pending = (t.pubs p).pending)
    (hresolving : ∀ c sl, (f (t.pubs p)).resolving.get? c = some sl →
      (t.pubs p).resolving.get? c = some sl) : ViewersSound (t.modifyPub p f).toSession code := by
  have hpubs : ∀ j, ((t.modifyPub p f).pubs j).ended = (t.pubs j).ended ∧
      ((t.modifyPub p f).pubs j).peers = (t.pubs j).peers ∧
      ((t.modifyPub p f).pubs j).pending = (t.pubs j).pending := by
    intro j
    rw [Streams.pubs_modifyPub]
    split
    · rename_i hj
      exact hj ▸ hf
    · exact ⟨rfl, rfl, rfl⟩
  have hsome : ∀ j c sl, ((t.modifyPub p f).pubs j).resolving.get? c = some sl →
      (t.pubs j).resolving.get? c = some sl := by
    intro j c sl hget
    rw [Streams.pubs_modifyPub] at hget
    split at hget
    · rename_i hj
      exact hj ▸ hresolving c sl hget
    · exact hget
  have hnone : ∀ j c, (t.pubs j).resolving.get? c = none →
      ((t.modifyPub p f).pubs j).resolving.get? c = none := by
    intro j c hget
    rw [Option.eq_none_iff_forall_ne_some]
    intro sl hsl
    rw [hsome j c sl hsl] at hget
    cases hget
  constructor
  · intro p' c' q hget
    rw [(hpubs p').2.1] at hget
    exact h.held p' c' q hget
  · intro q hq hopen p' howner
    rw [(hpubs p').2.1]
    exact h.live q hq hopen p' howner
  · intro p' c' q hended hget
    rw [(hpubs p').1] at hended
    rw [(hpubs p').2.1] at hget
    exact h.ends p' c' q hended hget
  · intro r hr hstate
    rw [(hpubs _).2.1, (hpubs _).2.2]
    exact h.pending r hr hstate
  · intro r hr hstate hended
    rw [(hpubs _).1] at hended
    exact h.closes r hr hstate hended
  · intro p' c' r hget
    rw [(hpubs p').2.2] at hget
    exact h.asked p' c' r hget
  · intro p' c' r hget hover
    rw [(hpubs p').2.2] at hget
    exact h.leaves p' c' r hget hover
  · intro p' c' sl hget
    rw [(hpubs p').1, (hpubs p').2.1]
    exact h.resolving p' c' sl (hsome p' c' sl hget)
  · intro p' c' hop
    exact hnone p' c' (h.dropping p' c' hop)
  · intro p' c' hop
    obtain ⟨hget, hasks⟩ := h.deleting p' c' hop
    exact ⟨hnone p' c' hget, hasks⟩
  · exact h.closing

/-- The request of a client that is nowhere is announced. -/
theorem newRequest (h : ViewersSound t.toSession code) {request : JoinRequest}
    {f : Published → Published} (hp : p < t.nextPub)
    (hstream : request.stream = p) (hclient : request.clientId = c)
    (hstate : request.state = .pending)
    (hf : (f (t.pubs p)).ended = (t.pubs p).ended ∧ (f (t.pubs p)).peers = (t.pubs p).peers ∧
      (f (t.pubs p)).resolving = (t.pubs p).resolving)
    (hpending : (f (t.pubs p)).pending = (t.pubs p).pending.set c t.nextRequest)
    (hnone : (t.pubs p).peers.get? c = none) (hresolving : (t.pubs p).resolving.get? c = none)
    (hasks : ¬Asks t.toSession p c) (hopen : (t.pubs p).ended = false)
    (hdelete : Op.deletePending p c ∉ code) :
    ViewersSound (({ t with nextRequest := t.nextRequest + 1 }.modifyRequest t.nextRequest
      fun _ => request).modifyPub p f).toSession code := by
  generalize ht' : ({ t with nextRequest := t.nextRequest + 1 }.modifyRequest t.nextRequest
      fun _ => request).modifyPub p f = t'
  have hnext : t'.nextRequest = t.nextRequest + 1 := ht' ▸ rfl
  have hnew : t'.requests t.nextRequest = request := ht' ▸ if_pos rfl
  have hold : ∀ r, r < t.nextRequest → t'.requests r = t.requests r :=
    fun r hr => ht' ▸ if_neg (Nat.ne_of_lt hr)
  have hpubs : ∀ j, (t'.pubs j).ended = (t.pubs j).ended ∧ (t'.pubs j).peers = (t.pubs j).peers ∧
      (t'.pubs j).resolving = (t.pubs j).resolving := by
    intro j
    rw [← ht', Streams.pubs_modifyPub]
    split
    · rename_i hj
      exact hj ▸ hf
    · exact ⟨rfl, rfl, rfl⟩
  have hmap : ∀ j c', (t'.pubs j).pending.get? c' =
      if j = p ∧ c = c' then some t.nextRequest else (t.pubs j).pending.get? c' := by
    intro j c'
    rw [← ht', Streams.pubs_modifyPub]
    split
    · rename_i hj
      subst hj
      show (f (t.pubs j)).pending.get? c' = _
      rw [hpending, InsertionMap.get?_set]
      simp only [true_and]
    · rename_i hj
      rw [if_neg fun hboth => hj hboth.1]
      rfl
  have hpeers : t'.peers = t.peers ∧ t'.slots = t.slots ∧ t'.nextPub = t.nextPub ∧
      t'.nextPeer = t.nextPeer ∧ t'.nextSlot = t.nextSlot := ht' ▸ ⟨rfl, rfl, rfl, rfl, rfl⟩
  obtain ⟨hpeer, hslot, hnextPub, hnextPeer, hnextSlot⟩ := hpeers
  have hasks' : ∀ p' c', Asks t'.toSession p' c' → Asks t.toSession p' c' ∨ (p' = p ∧ c = c') := by
    rintro p' c' ⟨r, hr, hstate', hp', hc'⟩
    rw [hnext] at hr
    rcases Nat.lt_succ_iff_lt_or_eq.mp hr with hlt | rfl
    · rw [hold r hlt] at hstate' hp' hc'
      exact Or.inl ⟨r, hlt, hstate', hp', hc'⟩
    · rw [hnew] at hp' hc'
      exact Or.inr ⟨hp'.symm.trans hstream, hclient.symm.trans hc'⟩
  constructor
  · intro p' c' q hget
    rw [(hpubs p').2.1] at hget
    rw [hpeer, hnextPeer]
    exact h.held p' c' q hget
  · intro q hq hopen' p' howner
    rw [hnextPeer] at hq
    rw [hpeer] at hopen' howner ⊢
    rw [hnextPub, (hpubs p').2.1]
    exact h.live q hq hopen' p' howner
  · intro p' c' q hended hget
    rw [(hpubs p').1] at hended
    rw [(hpubs p').2.1] at hget
    exact h.ends p' c' q hended hget
  · intro r hr hstate'
    rw [hnext] at hr
    rcases Nat.lt_succ_iff_lt_or_eq.mp hr with hlt | rfl
    · rw [hold r hlt] at hstate' ⊢
      obtain ⟨hp', hget, hpeers'⟩ := h.pending r hlt hstate'
      rw [hnextPub, (hpubs _).2.1, hmap, if_neg]
      · exact ⟨hp', hget, hpeers'⟩
      · rintro ⟨hstream', hclient'⟩
        exact hasks ⟨r, hlt, hstate', hstream', hclient'.symm⟩
    · rw [hnew, hstream, hclient, hnextPub, (hpubs _).2.1, hmap, if_pos ⟨rfl, rfl⟩]
      exact ⟨hp, rfl, hnone⟩
  · intro r hr hstate' hended
    rw [hnext] at hr
    rcases Nat.lt_succ_iff_lt_or_eq.mp hr with hlt | rfl
    · rw [hold r hlt] at hstate' hended ⊢
      rw [(hpubs _).1] at hended
      exact h.closes r hlt hstate' hended
    · rw [hnew, hstream, (hpubs _).1, hopen] at hended
      cases hended
  · intro p' c' r hget
    rw [hmap] at hget
    split at hget
    · rename_i hboth
      cases hget
      rw [hnew, hnext, hstream, hclient]
      exact ⟨Nat.lt_succ_self _, hboth.1.symm, hboth.2⟩
    · obtain ⟨hr, hrest⟩ := h.asked p' c' r hget
      rw [hnext, hold r hr]
      exact ⟨Nat.lt_succ_of_lt hr, hrest⟩
  · intro p' c' r hget hover
    rw [hmap] at hget
    split at hget
    · cases hget
      rw [hnew, hstate] at hover
      cases hover
    · obtain ⟨hr, -⟩ := h.asked p' c' r hget
      rw [hold r hr] at hover
      exact h.leaves p' c' r hget hover
  · intro p' c' sl hget
    rw [(hpubs p').2.2] at hget
    obtain ⟨hp', hsl, hc', hopen', hpeers', hnot⟩ := h.resolving p' c' sl hget
    rw [hnextPub, hnextSlot, hslot, (hpubs p').1, (hpubs p').2.1]
    refine ⟨hp', hsl, hc', hopen', hpeers', fun hask => ?_⟩
    rcases hasks' p' c' hask with hask | ⟨rfl, rfl⟩
    · exact hnot hask
    · rw [hresolving] at hget
      cases hget
  · intro p' c' hop
    rw [(hpubs p').2.2]
    exact h.dropping p' c' hop
  · intro p' c' hop
    obtain ⟨hget, hnot⟩ := h.deleting p' c' hop
    rw [(hpubs p').2.2]
    refine ⟨hget, fun hask => ?_⟩
    rcases hasks' p' c' hask with hask | ⟨rfl, rfl⟩
    · exact hnot hask
    · exact hdelete hop
  · intro p' rs e hop r hr
    obtain ⟨hlt, hstream'⟩ := h.closing p' rs e hop r hr
    rw [hnext, hold r hlt]
    exact ⟨Nat.lt_succ_of_lt hlt, hstream'⟩

/-- `#announce`, of the client that is looked up. -/
theorem announceSlot {slot : Slot} (h : ViewersSound t.toSession code) (sl : SlotID)
    (hget : (t.pubs p).resolving.get? slot.clientId = some sl) (identity : Identity) :
    ViewersSound (t.announceSlot p slot identity).1.toSession code := by
  obtain ⟨hp, -, -, hopen, hpeers, hasks⟩ := h.resolving p slot.clientId sl hget
  have hdelete : Op.deletePending p slot.clientId ∉ code := by
    intro hop
    have hnone := (h.deleting p slot.clientId hop).1
    rw [hget] at hnone
    cases hnone
  have hless : ViewersSound (t.modifyPub p fun pub =>
      { pub with resolving := pub.resolving.delete slot.clientId }).toSession code := by
    refine h.unresolve ⟨rfl, rfl, rfl⟩ fun c sl' hget' => ?_
    dsimp only at hget'
    rw [InsertionMap.get?_delete] at hget'
    split at hget'
    · cases hget'
    · exact hget'
  rw [Streams.announceSlot]
  dsimp only
  split
  · exact hless
  · have hself : (t.modifyPub p fun pub =>
        { pub with resolving := pub.resolving.delete slot.clientId }).pubs p =
        { t.pubs p with resolving := (t.pubs p).resolving.delete slot.clientId } := if_pos rfl
    refine hless.newRequest (c := slot.clientId) hp rfl rfl rfl ⟨rfl, rfl, rfl⟩ rfl ?_ ?_ hasks ?_
      hdelete
    · rw [hself]
      exact hpeers
    · rw [hself]
      exact InsertionMap.get?_delete_self _ _
    · rw [hself]
      exact hopen

theorem announce (h : ViewersSound t.toSession code) (p : PubID) :
    ViewersSound (t.announce p).1.toSession code := by
  rw [Streams.announce]
  split
  · exact h
  · rename_i head rest hslots
    dsimp only
    have hshift : ViewersSound (t.modifyPub p fun pub => { pub with slots := rest }).toSession
        code :=
      h.congr (samePub_modifyPub t ⟨rfl, rfl, rfl, rfl⟩) (fun q => .refl _) rfl (fun sl => rfl) rfl
        rfl rfl rfl
    split
    · rename_i hcurrent
      split
      · exact h
      · rename_i identity hidentity
        refine hshift.announceSlot head ?_ identity
        rw [Streams.pubs_modifyPub, if_pos rfl]
        exact hcurrent.1
    · exact hshift

/-- A client asks that is neither let in nor pending nor looked up. -/
theorem requestViewer (h : ViewersSound t.toSession []) (hp : p < t.nextPub) (message : Str) :
    ViewersSound (t.requestViewer p c message).1.toSession [] := by
  rw [Streams.requestViewer]
  dsimp only
  split
  · exact h
  rename_i hfree
  split
  · exact h
  rename_i hpending
  rw [not_or, not_or] at hfree
  obtain ⟨hopen, hpeers, -⟩ := hfree
  have hasks : ¬Asks t.toSession p c := by
    refine h.not_asks fun r hget hstate => hpending ?_
    rw [hget]
    exact decide_eq_true hstate
  generalize ht' : Streams.modifyPub _ p _ = t'
  have hnew : t'.slots t.nextSlot = { stream := p, clientId := c, message } := ht' ▸ if_pos rfl
  have hold : ∀ sl, sl < t.nextSlot → t'.slots sl = t.slots sl :=
    fun sl hsl => ht' ▸ if_neg (Nat.ne_of_lt hsl)
  have hpubs : ∀ j, (t'.pubs j).ended = (t.pubs j).ended ∧ (t'.pubs j).peers = (t.pubs j).peers ∧
      (t'.pubs j).pending = (t.pubs j).pending := by
    intro j
    rw [← ht', Streams.pubs_modifyPub]
    split
    · rename_i hj
      rw [hj]
      exact ⟨rfl, rfl, rfl⟩
    · exact ⟨rfl, rfl, rfl⟩
  have hmap : ∀ j c', (t'.pubs j).resolving.get? c' =
      if j = p ∧ c = c' then some t.nextSlot else (t.pubs j).resolving.get? c' := by
    intro j c'
    rw [← ht', Streams.pubs_modifyPub]
    split
    · rename_i hj
      subst hj
      show (InsertionMap.set _ c _).get? c' = _
      rw [InsertionMap.get?_set]
      simp only [true_and]
      rfl
    · rename_i hj
      rw [if_neg fun hboth => hj hboth.1]
      rfl
  have hsame : t'.peers = t.peers ∧ t'.requests = t.requests ∧ t'.nextPub = t.nextPub ∧
      t'.nextPeer = t.nextPeer ∧ t'.nextRequest = t.nextRequest ∧ t'.nextSlot = t.nextSlot + 1 :=
    ht' ▸ ⟨rfl, rfl, rfl, rfl, rfl, rfl⟩
  obtain ⟨hpeer, hrequest, hnextPub, hnextPeer, hnextRequest, hnextSlot⟩ := hsame
  have hiff : ∀ p' c', Asks t'.toSession p' c' ↔ Asks t.toSession p' c' := by
    intro p' c'
    rw [Asks, Asks, hrequest, hnextRequest]
  constructor
  · intro p' c' q hget
    rw [(hpubs p').2.1] at hget
    rw [hpeer, hnextPeer]
    exact h.held p' c' q hget
  · intro q hq hopen' p' howner
    rw [hnextPeer] at hq
    rw [hpeer] at hopen' howner ⊢
    rw [hnextPub, (hpubs p').2.1]
    exact h.live q hq hopen' p' howner
  · intro p' c' q hended hget
    rw [(hpubs p').1] at hended
    rw [(hpubs p').2.1] at hget
    exact h.ends p' c' q hended hget
  · intro r hr hstate
    rw [hnextRequest] at hr
    rw [hrequest] at hstate ⊢
    rw [hnextPub, (hpubs _).2.1, (hpubs _).2.2]
    exact h.pending r hr hstate
  · intro r hr hstate hended
    rw [hnextRequest] at hr
    rw [hrequest] at hstate hended ⊢
    rw [(hpubs _).1] at hended
    exact h.closes r hr hstate hended
  · intro p' c' r hget
    rw [(hpubs p').2.2] at hget
    rw [hnextRequest, hrequest]
    exact h.asked p' c' r hget
  · intro p' c' r hget hover
    rw [(hpubs p').2.2] at hget
    rw [hrequest] at hover
    exact h.leaves p' c' r hget hover
  · intro p' c' sl hget
    rw [hmap] at hget
    rw [hnextPub, hnextSlot, (hpubs p').1, (hpubs p').2.1, hiff]
    split at hget
    · rename_i hboth
      cases hget
      obtain ⟨rfl, rfl⟩ := hboth
      rw [hnew]
      refine ⟨hp, Nat.lt_succ_self _, rfl, Bool.eq_false_iff.mpr hopen, ?_, hasks⟩
      exact InsertionMap.has_eq_false.mp (Bool.eq_false_iff.mpr hpeers)
    · obtain ⟨hp', hsl, hrest⟩ := h.resolving p' c' sl hget
      rw [hold sl hsl]
      exact ⟨hp', Nat.lt_succ_of_lt hsl, hrest⟩
  · exact fun _ _ hop => absurd hop List.not_mem_nil
  · exact fun _ _ hop => absurd hop List.not_mem_nil
  · exact fun _ _ _ hop => absurd hop List.not_mem_nil

/-- A client takes its request back: it is looked up no more. -/
theorem dropPending (h : ViewersSound t.toSession code) :
    ViewersSound (t.dropPending p c).1.toSession (.dropRequest p c :: code) := by
  rw [Streams.dropPending]
  split
  · rename_i hnone
    refine h.push _ (fun p' c' heq => ?_) nofun nofun
    obtain ⟨rfl, rfl⟩ := Op.dropRequest.inj heq
    exact hnone
  · rename_i sl hget
    refine (h.unresolve (p := p) ⟨rfl, rfl, rfl⟩ fun c' sl' hget' => ?_).push _
      (fun p' c' heq => ?_)
      nofun nofun
    · dsimp only at hget'
      rw [InsertionMap.get?_delete] at hget'
      split at hget'
      · cases hget'
      · exact hget'
    · obtain ⟨rfl, rfl⟩ := Op.dropRequest.inj heq
      rw [Streams.pubs_modifyPub, if_pos rfl]
      exact InsertionMap.get?_delete_self _ _

/-! ### Lookups -/

theorem modifySlot (h : ViewersSound t.toSession code) {sl : SlotID} {f : Slot → Slot}
    (hf : (f (t.slots sl)).clientId = (t.slots sl).clientId) :
    ViewersSound (t.modifySlot sl f).toSession code := by
  refine h.congr (fun p => .refl _) (fun q => .refl _) rfl (fun sl' => ?_) rfl rfl rfl rfl
  rw [Streams.slots_modifySlot]
  split
  · rename_i hsl
    exact hsl ▸ hf
  · rfl

theorem lookUp (h : ViewersSound t.toSession code) (p : PubID) (sl : SlotID) :
    ViewersSound (Streams.lookUp p t sl).toSession code := by
  rw [Streams.lookUp]
  split
  · exact h
  split
  · exact h
  split
  · exact h.modifySlot rfl
  · exact h.modifySlot rfl

theorem advance (h : ViewersSound t.toSession code) (p : PubID) :
    ViewersSound (t.advance p).1.toSession code := by
  rw [Streams.advance]
  dsimp only
  generalize (t.pubs p).slots = slots
  induction slots generalizing t with
  | nil => exact h
  | cons sl slots ih => exact ih (h.lookUp p sl)

/-! ### Streams -/

theorem adopted {s : Session} (h : ViewersSound s code) {id : Str} {pubs : Nat → Published}
    {published : InsertionMap Str PubID} (hnew : pubs s.nextPub = { id })
    (hold : ∀ j, j ≠ s.nextPub → pubs j = s.pubs j) :
    ViewersSound { s with pubs, nextPub := s.nextPub + 1, published } code where
  held p c q hget := by
    change (pubs p).peers.get? c = some q at hget
    by_cases hp : p = s.nextPub
    · rw [hp, hnew] at hget
      cases hget
    · rw [hold p hp] at hget
      exact h.held p c q hget
  live q hq hopen p howner := by
    obtain ⟨hp, hget⟩ := h.live q hq hopen p howner
    refine ⟨Nat.lt_succ_of_lt hp, ?_⟩
    show (pubs p).peers.get? _ = some q
    rw [hold p (Nat.ne_of_lt hp)]
    exact hget
  ends p c q hended hget := by
    change (pubs p).ended = true at hended
    change (pubs p).peers.get? c = some q at hget
    by_cases hp : p = s.nextPub
    · rw [hp, hnew] at hget
      cases hget
    · rw [hold p hp] at hended hget
      exact h.ends p c q hended hget
  pending r hr hstate := by
    obtain ⟨hp, hget, hpeers⟩ := h.pending r hr hstate
    refine ⟨Nat.lt_succ_of_lt hp, ?_⟩
    show (pubs _).pending.get? _ = some r ∧ (pubs _).peers.get? _ = none
    rw [hold _ (Nat.ne_of_lt hp)]
    exact ⟨hget, hpeers⟩
  closes r hr hstate hended := by
    have hp := (h.pending r hr hstate).1
    change (pubs _).ended = true at hended
    rw [hold _ (Nat.ne_of_lt hp)] at hended
    exact h.closes r hr hstate hended
  asked p c r hget := by
    change (pubs p).pending.get? c = some r at hget
    by_cases hp : p = s.nextPub
    · rw [hp, hnew] at hget
      cases hget
    · rw [hold p hp] at hget
      exact h.asked p c r hget
  leaves p c r hget hover := by
    change (pubs p).pending.get? c = some r at hget
    by_cases hp : p = s.nextPub
    · rw [hp, hnew] at hget
      cases hget
    · rw [hold p hp] at hget
      exact h.leaves p c r hget hover
  resolving p c sl hget := by
    change (pubs p).resolving.get? c = some sl at hget
    by_cases hp : p = s.nextPub
    · rw [hp, hnew] at hget
      cases hget
    · rw [hold p hp] at hget
      obtain ⟨hlt, hsl, hc, hopen, hpeers, hasks⟩ := h.resolving p c sl hget
      show p < s.nextPub + 1 ∧ _ ∧ _ ∧ (pubs p).ended = false ∧ (pubs p).peers.get? c = none ∧ _
      rw [hold p hp]
      exact ⟨Nat.lt_succ_of_lt hlt, hsl, hc, hopen, hpeers, hasks⟩
  dropping p c hop := by
    show (pubs p).resolving.get? c = none
    by_cases hp : p = s.nextPub
    · rw [hp, hnew]
      rfl
    · rw [hold p hp]
      exact h.dropping p c hop
  deleting p c hop := by
    show (pubs p).resolving.get? c = none ∧ _
    by_cases hp : p = s.nextPub
    · rw [hp, hnew]
      refine ⟨rfl, ?_⟩
      rintro ⟨r, hr, hstate, hstream, -⟩
      exact absurd (h.pending r hr hstate).1 (hstream ▸ Nat.lt_irrefl _)
    · rw [hold p hp]
      exact h.deleting p c hop
  closing := h.closing

end Teamspeak.Stream.ViewersSound
