import Teamspeak.Stream.Joins

/-!
# Join requests in turn

* `QueueSound s p`: the slots of a stream, and which of them are current.
* `Joined`: what holds of a stream's requests for its ledger and for what is left to do.
* `Joined.frame`: what keeps it; `Joined.requestViewer`, `Joined.dropPending`,
  `Joined.announce`, `Joined.finish`: the operations on the queue.
* `requests_inTurn`: **in every run the requests announced are, in the order they came, those
  that have left neither before their turn nor wait for it.**
-/

namespace Teamspeak.Stream

variable {s t : Session} {p : PubID}

/-! ### The queue of a stream -/

structure QueueSound (s : Session) (p : PubID) : Prop where
  sorted : (s.pubs p).slots.Pairwise (· < ·)
  lt : ∀ sl ∈ (s.pubs p).slots, sl < s.nextSlot
  stream : ∀ sl ∈ (s.pubs p).slots, (s.slots sl).stream = p
  held : ∀ c sl, (s.pubs p).resolving.get? c = some sl →
    sl ∈ (s.pubs p).slots ∧ (s.slots sl).clientId = c
  closed : (s.pubs p).ended = true → (s.pubs p).slots = []
  unborn : s.nextPub ≤ p →
    (s.pubs p).slots = [] ∧ (s.pubs p).resolving = .empty ∧ (s.pubs p).shown = []

/-- Who asked has been looked up, or is. -/
def LookedUp (s : Session) (p : PubID) : Prop :=
  ∀ sl ∈ (s.pubs p).slots, s.Current p sl →
    (s.slots sl).identity.isSome = true ∨ (s.slots sl).looking = true

/-- The request whose turn it is has not been looked up yet. -/
def AtTurn (s : Session) (p : PubID) : Prop :=
  ∀ head ∈ (s.pubs p).slots.head?, s.Current p head ∧ (s.slots head).identity = none

/-- The request is the one that the slot stands for. -/
def Answers (s : Session) (p : PubID) (sl : SlotID) (r : RequestID) : Prop :=
  sl < s.nextSlot ∧ r < s.nextRequest ∧ ∃ identity, (s.slots sl).identity = some identity ∧
    (s.requests r).asked = (p, (s.slots sl).clientId, identity, (s.slots sl).message)

/-- The requests of stream `p`, for its ledger and what is left to do. -/
structure Joined (ledger : List (TicketEvent SlotID)) (s : Session) (code : List Op) (p : PubID) :
    Prop where
  queue : QueueSound s p
  balanced : Tickets.Balanced ledger (s.waiting p)
  arrived : ∀ sl ∈ Tickets.arrivals ledger, sl < s.nextSlot
  sorted : (Tickets.arrivals ledger).Pairwise (· < ·)
  shown : List.Forall₂ (Answers s p) (Tickets.servings ledger) (s.pubs p).shown
  lookedUp : Op.advance p ∈ code ∨ LookedUp s p
  atTurn : Op.advance p ∈ code ∨ Op.announce p ∈ code ∨ AtTurn s p

/-- A slot is as it was, but that its lookup may be out, or answered. -/
structure Slot.Kept (a b : Slot) : Prop where
  stream : b.stream = a.stream
  clientId : b.clientId = a.clientId
  message : b.message = a.message
  identity : ∀ identity, a.identity = some identity → b.identity = some identity
  looking : a.looking = true → b.identity.isSome = true ∨ b.looking = true

theorem Slot.Kept.refl (a : Slot) : a.Kept a := ⟨rfl, rfl, rfl, fun _ h => h, Or.inr⟩

theorem waiting_congr (hslots : (t.pubs p).slots = (s.pubs p).slots)
    (hcurrent : ∀ sl ∈ (s.pubs p).slots, t.Current p sl ↔ s.Current p sl) :
    t.waiting p = s.waiting p := by
  rw [Session.waiting, hslots]
  exact List.filter_congr fun sl hsl => decide_eq_decide.mpr (hcurrent sl hsl)

namespace Joined

variable {ledger : List (TicketEvent SlotID)} {code code' : List Op}

theorem answers_mono {sl : SlotID} {r : RequestID} (h : Answers s p sl r)
    (hnextSlot : s.nextSlot ≤ t.nextSlot) (hnextRequest : s.nextRequest ≤ t.nextRequest)
    (hslot : ∀ sl < s.nextSlot, (s.slots sl).Kept (t.slots sl))
    (hasked : ∀ r < s.nextRequest, (t.requests r).asked = (s.requests r).asked) :
    Answers t p sl r := by
  obtain ⟨hsl, hr, identity, hidentity, hmade⟩ := h
  have hkept := hslot sl hsl
  refine ⟨hsl.trans_le hnextSlot, hr.trans_le hnextRequest, identity,
    hkept.identity identity hidentity, ?_⟩
  rw [hasked r hr, hmade, hkept.clientId, hkept.message]

/-- What leaves the queue of `p` alone keeps its requests as they are. -/
theorem frame (h : Joined ledger s code p) (hqueue : (t.pubs p).slots = (s.pubs p).slots)
    (hresolving : (t.pubs p).resolving = (s.pubs p).resolving)
    (hshown : (t.pubs p).shown = (s.pubs p).shown)
    (hended : (t.pubs p).ended = true → (s.pubs p).ended = true)
    (hnextSlot : s.nextSlot ≤ t.nextSlot) (hnextRequest : s.nextRequest ≤ t.nextRequest)
    (hnextPub : s.nextPub ≤ t.nextPub)
    (hslot : ∀ sl < s.nextSlot, (s.slots sl).Kept (t.slots sl))
    (hasked : ∀ r < s.nextRequest, (t.requests r).asked = (s.requests r).asked)
    (hhead : ∀ head ∈ (s.pubs p).slots.head?, (s.slots head).identity = none →
      (t.slots head).identity = none ∨ Op.advance p ∈ code')
    (hadvance : Op.advance p ∈ code → Op.advance p ∈ code')
    (hannounce : Op.announce p ∈ code → Op.announce p ∈ code') : Joined ledger t code' p := by
  have hcurrent : ∀ sl ∈ (s.pubs p).slots, t.Current p sl ↔ s.Current p sl := fun sl hsl => by
    rw [Session.Current, Session.Current, hresolving, (hslot sl (h.queue.lt sl hsl)).clientId]
  exact
    { queue :=
        { sorted := hqueue ▸ h.queue.sorted
          lt := fun sl hsl => (h.queue.lt sl (hqueue ▸ hsl)).trans_le hnextSlot
          stream := fun sl hsl => by
            rw [hqueue] at hsl
            rw [(hslot sl (h.queue.lt sl hsl)).stream, h.queue.stream sl hsl]
          held := fun c sl hsl => by
            rw [hresolving] at hsl
            obtain ⟨hmem, hclient⟩ := h.queue.held c sl hsl
            rw [hqueue, (hslot sl (h.queue.lt sl hmem)).clientId]
            exact ⟨hmem, hclient⟩
          closed := fun he => hqueue.trans (h.queue.closed (hended he))
          unborn := fun hp => by
            rw [hqueue, hresolving, hshown]
            exact h.queue.unborn (hnextPub.trans hp) }
      balanced := (waiting_congr hqueue hcurrent).symm ▸ h.balanced
      arrived := fun sl hsl => (h.arrived sl hsl).trans_le hnextSlot
      sorted := h.sorted
      shown := by
        rw [hshown]
        exact h.shown.imp fun sl r hr => answers_mono hr hnextSlot hnextRequest hslot hasked
      lookedUp := by
        refine h.lookedUp.imp hadvance fun hl sl hsl hc => ?_
        rw [hqueue] at hsl
        have hkept := hslot sl (h.queue.lt sl hsl)
        rcases hl sl hsl ((hcurrent sl hsl).mp hc) with hi | hi
        · obtain ⟨identity, hi⟩ := Option.isSome_iff_exists.mp hi
          exact Or.inl (by rw [hkept.identity identity hi]; rfl)
        · exact hkept.looking hi
      atTurn := by
        rcases h.atTurn with ha | ha | ha
        · exact Or.inl (hadvance ha)
        · exact Or.inr (Or.inl (hannounce ha))
        · by_cases hcode : Op.advance p ∈ code'
          · exact Or.inl hcode
          · refine Or.inr (Or.inr fun head hmem => ?_)
            rw [hqueue] at hmem
            obtain ⟨hc, hi⟩ := ha head hmem
            have hslots : head ∈ (s.pubs p).slots := List.mem_of_mem_head? hmem
            exact ⟨(hcurrent head hslots).mpr hc, (hhead head hmem hi).resolve_right hcode⟩ }

theorem aside (h : Joined ledger s code p) (ha : Aside s t)
    (hadvance : Op.advance p ∈ code → Op.advance p ∈ code')
    (hannounce : Op.announce p ∈ code → Op.announce p ∈ code') : Joined ledger t code' p :=
  h.frame (ha.queue p) (ha.resolving p) (ha.shown p) (ha.ended p) ha.nextSlot.ge
    ha.nextRequest.ge ha.le (fun sl _ => by rw [ha.slots]; exact .refl _) (fun r _ => ha.asked r)
    (fun head _ hi => Or.inl (by rw [ha.slots, hi])) hadvance hannounce

/-! ### A request comes -/

theorem kept_of_lt {slot : Slot}
    (hslot : ∀ sl, t.slots sl = if sl = s.nextSlot then slot else s.slots sl)
    {sl : SlotID} (hsl : sl < s.nextSlot) : t.slots sl = s.slots sl := by
  rw [hslot, if_neg (Nat.ne_of_lt hsl)]

theorem ask (h : Joined ledger s [] p) {clid : ClientID} {message : Str}
    (hnone : (s.pubs p).resolving.get? clid = none) (hborn : p < s.nextPub)
    (hover : (s.pubs p).ended = false)
    (hpub : t.pubs p = { s.pubs p with
      resolving := (s.pubs p).resolving.set clid s.nextSlot
      slots := (s.pubs p).slots ++ [s.nextSlot] })
    (hslot : ∀ sl, t.slots sl =
      if sl = s.nextSlot then { stream := p, clientId := clid, message } else s.slots sl)
    (hnextSlot : t.nextSlot = s.nextSlot + 1) (hnextRequest : t.nextRequest = s.nextRequest)
    (hrequests : t.requests = s.requests) (hnextPub : t.nextPub = s.nextPub) :
    Joined (ledger ++ [.arrived s.nextSlot]) t [.advance p] p := by
  have hold : ∀ sl ∈ (s.pubs p).slots, t.slots sl = s.slots sl := fun sl hsl =>
    kept_of_lt hslot (h.queue.lt sl hsl)
  have hnew : t.slots s.nextSlot = { stream := p, clientId := clid, message } := by
    rw [hslot, if_pos rfl]
  have hslots : (t.pubs p).slots = (s.pubs p).slots ++ [s.nextSlot] := by rw [hpub]
  have hresolving : (t.pubs p).resolving = (s.pubs p).resolving.set clid s.nextSlot := by rw [hpub]
  have hfresh : s.nextSlot ∉ Tickets.arrivals ledger := fun hmem =>
    Nat.lt_irrefl _ (h.arrived _ hmem)
  -- A slot that was current has another client, for this one had no slot.
  have hcurrent : ∀ sl ∈ (s.pubs p).slots, t.Current p sl ↔ s.Current p sl := fun sl hsl => by
    rw [Session.Current, Session.Current, hresolving, hold sl hsl, InsertionMap.get?_set]
    split
    · rename_i hc
      rw [← hc, hnone]
      exact ⟨fun he => absurd (h.queue.lt sl hsl) (by cases he; exact Nat.lt_irrefl _),
        (Option.some_ne_none _).symm.elim⟩
    · rfl
  have hwaiting : t.waiting p = s.waiting p ++ [s.nextSlot] := by
    have hc : t.Current p s.nextSlot := by
      rw [Session.Current, hresolving, hnew]
      exact InsertionMap.get?_set_self _ _ _
    rw [Session.waiting, hslots, List.filter_append, List.filter_singleton, decide_eq_true hc,
      cond_true, Session.waiting]
    exact congrArg (· ++ _) (List.filter_congr fun sl hsl => decide_eq_decide.mpr (hcurrent sl hsl))
  exact
    { queue :=
        { sorted := by
            rw [hslots, List.pairwise_append]
            refine ⟨h.queue.sorted, List.pairwise_singleton _ _, fun sl hsl j hj => ?_⟩
            rw [List.mem_singleton.mp hj]
            exact h.queue.lt sl hsl
          lt := fun sl hsl => by
            rw [hslots] at hsl
            rw [hnextSlot]
            rcases List.mem_append.mp hsl with hsl | hsl
            · exact Nat.lt_succ_of_lt (h.queue.lt sl hsl)
            · rw [List.mem_singleton.mp hsl]
              exact Nat.lt_succ_self _
          stream := fun sl hsl => by
            rw [hslots] at hsl
            rcases List.mem_append.mp hsl with hsl | hsl
            · rw [hold sl hsl, h.queue.stream sl hsl]
            · rw [List.mem_singleton.mp hsl, hnew]
          held := fun c sl hsl => by
            rw [hresolving, InsertionMap.get?_set] at hsl
            rw [hslots]
            split at hsl
            · rename_i hc
              cases hsl
              exact ⟨List.mem_append_right _ (List.mem_singleton_self _), by rw [hnew, hc]⟩
            · obtain ⟨hmem, hclient⟩ := h.queue.held c sl hsl
              exact ⟨List.mem_append_left _ hmem, by rw [hold sl hmem, hclient]⟩
          closed := fun he => by
            rw [hpub] at he
            exact Bool.noConfusion (hover.symm.trans he)
          unborn := fun hle => absurd (hnextPub ▸ hle) (Nat.not_le_of_lt hborn) }
      balanced := by
        rw [hwaiting]
        exact h.balanced.arrive hfresh
      arrived := fun sl hsl => by
        rw [Tickets.arrivals_append] at hsl
        rw [hnextSlot]
        rcases List.mem_append.mp hsl with hsl | hsl
        · exact Nat.lt_succ_of_lt (h.arrived sl hsl)
        · rw [List.mem_singleton.mp hsl]
          exact Nat.lt_succ_self _
      sorted := by
        rw [Tickets.arrivals_append, List.pairwise_append]
        refine ⟨h.sorted, List.pairwise_singleton _ _, fun sl hsl j hj => ?_⟩
        rw [List.mem_singleton.mp hj]
        exact h.arrived sl hsl
      shown := by
        rw [Tickets.servings_append, hpub]
        refine (List.append_nil _).symm ▸ h.shown.imp fun sl r hr => ?_
        exact answers_mono hr (hnextSlot ▸ Nat.le_succ _) hnextRequest.ge
          (fun sl hsl => by rw [kept_of_lt hslot hsl]; exact .refl _) fun r _ => by rw [hrequests]
      lookedUp := Or.inl (List.mem_singleton_self _)
      atTurn := Or.inl (List.mem_singleton_self _) }

theorem arrivals_of_eq (q : PubID) (h : t.nextSlot = s.nextSlot) : arrivals q s t = [] := by
  rw [arrivals, h, Nat.sub_self]
  rfl

theorem requestViewer {x : Streams} {q : PubID} (h : Joined ledger x.toSession [] q)
    (hborn : p < x.nextPub) (clid : ClientID) (message : Str) :
    Joined (ledger ++ arrivals q x.toSession (x.requestViewer p clid message).1.toSession)
      (x.requestViewer p clid message).1.toSession (x.requestViewer p clid message).2 q := by
  unfold Streams.requestViewer
  dsimp only
  split
  · rw [arrivals_of_eq q rfl, List.append_nil]
    exact h
  rename_i hfree
  rw [not_or, not_or] at hfree
  split
  · rw [arrivals_of_eq q rfl, List.append_nil]
    exact h
  let t : Streams := (({ x with nextSlot := x.nextSlot + 1 }.modifySlot x.nextSlot fun _ =>
    { stream := p, clientId := clid, message }).modifyPub p fun pub =>
      { pub with
        resolving := pub.resolving.set clid x.nextSlot
        slots := pub.slots ++ [x.nextSlot] })
  have hslot : ∀ sl, t.slots sl = if sl = x.nextSlot then
      { stream := p, clientId := clid, message } else x.slots sl := fun _ => rfl
  have harrived : arrivals q x.toSession t.toSession =
      if q = p then [.arrived x.nextSlot] else [] := by
    have hnext : t.nextSlot - x.nextSlot = 1 := Nat.add_sub_cancel_left _ _
    rw [arrivals, hnext, List.range'_one, List.filter_singleton, hslot, if_pos rfl]
    by_cases hq : q = p
    · simp [hq]
    · simp [hq, Ne.symm hq]
  change Joined (ledger ++ arrivals q x.toSession t.toSession) t.toSession [.advance p] q
  rw [harrived]
  split
  · rename_i hq
    subst hq
    refine h.ask (InsertionMap.has_eq_false.mp (Bool.eq_false_iff.mpr hfree.2.2)) hborn
      (Bool.eq_false_iff.mpr hfree.1) ?_ hslot rfl rfl rfl rfl
    exact if_pos rfl
  · rename_i hq
    have hpub : t.pubs q = x.pubs q := if_neg hq
    rw [List.append_nil]
    refine h.frame ?_ ?_ ?_ ?_ (Nat.le_succ _) (Nat.le_refl _) (Nat.le_refl _) ?_ (fun _ _ => rfl)
      ?_ (absurd · List.not_mem_nil) (absurd · List.not_mem_nil)
    · rw [hpub]
    · rw [hpub]
    · rw [hpub]
    · rw [hpub]
      exact id
    · intro sl hsl
      rw [kept_of_lt (s := x.toSession) (t := t.toSession) hslot hsl]
      exact .refl _
    · intro head hmem hi
      have hsl := h.queue.lt head (List.mem_of_mem_head? hmem)
      rw [kept_of_lt (s := x.toSession) (t := t.toSession) hslot hsl]
      exact Or.inl hi

/-! ### A request leaves the queue -/

/-- What is left to do, once an operation that is no step of the queue is done. -/
theorem mem_rest {op op' : Op} {ops : List Op} (hne : op' ≠ op) (h : op' ∈ op :: code) :
    op' ∈ ops ++ code := List.mem_append_right _ ((List.mem_cons.mp h).resolve_left hne)

/-- A client's slot is no longer current; the others are as they were. -/
theorem current_delete {clid : ClientID} {sl : SlotID} (h : QueueSound s p)
    (hc : (s.pubs p).resolving.get? clid = some sl)
    (hresolving : (t.pubs p).resolving = (s.pubs p).resolving.delete clid)
    (hslots : t.slots = s.slots) (a : SlotID) :
    t.Current p a ↔ s.Current p a ∧ a ≠ sl := by
  rw [Session.Current, Session.Current, hresolving, hslots, InsertionMap.get?_delete]
  split
  · rename_i hclient
    rw [← hclient, hc]
    exact ⟨(Option.some_ne_none _).symm.elim, fun ha => absurd (Option.some.inj ha.1).symm ha.2⟩
  · rename_i hclient
    refine ⟨fun ha => ⟨ha, fun heq => hclient ?_⟩, fun ha => ha.1⟩
    rw [heq]
    exact (h.held clid sl hc).2.symm

/-- A client's slot leaves, and its number the slots, unless its lookup is out. -/
structure Deletes (s t : Session) (p : PubID) (clid : ClientID) (sl : SlotID) : Prop where
  current : (s.pubs p).resolving.get? clid = some sl
  queue : (t.pubs p).slots = (s.pubs p).slots ∨
    (t.pubs p).slots = (s.pubs p).slots.filter fun a => a ≠ sl
  resolving : (t.pubs p).resolving = (s.pubs p).resolving.delete clid
  ended : (t.pubs p).ended = (s.pubs p).ended
  slots : t.slots = s.slots
  nextSlot : t.nextSlot = s.nextSlot
  nextPub : t.nextPub = s.nextPub

theorem Deletes.sound {clid : ClientID} {sl : SlotID} (hd : Deletes s t p clid sl)
    (h : QueueSound s p) : QueueSound t p := by
  have hsub : (t.pubs p).slots.Sublist (s.pubs p).slots := by
    rcases hd.queue with hslots | hslots
    · rw [hslots]
    · rw [hslots]
      exact List.filter_sublist
  have hkeep : ∀ a ∈ (s.pubs p).slots, a ≠ sl → a ∈ (t.pubs p).slots := fun a ha hne => by
    rcases hd.queue with hslots | hslots
    · rwa [hslots]
    · rw [hslots]
      exact List.mem_filter.mpr ⟨ha, decide_eq_true hne⟩
  exact
    { sorted := h.sorted.sublist hsub
      lt := fun a ha => hd.nextSlot ▸ h.lt a (hsub.subset ha)
      stream := fun a ha => hd.slots ▸ h.stream a (hsub.subset ha)
      held := fun c a ha => by
        rw [hd.resolving, InsertionMap.get?_delete] at ha
        split at ha
        · cases ha
        · rename_i hne
          obtain ⟨hmem, hclient⟩ := h.held c a ha
          refine ⟨hkeep a hmem fun heq => hne ?_, hd.slots ▸ hclient⟩
          rw [← hclient, heq]
          exact (h.held clid sl hd.current).2.symm
      closed := fun he => by
        have hnil := h.closed (hd.ended ▸ he)
        rw [hnil] at hsub
        exact List.sublist_nil.mp hsub
      unborn := fun hle => by
        have hc := hd.current
        rw [(h.unborn (hd.nextPub ▸ hle)).2.1] at hc
        cases hc }

theorem Deletes.waiting {clid : ClientID} {sl : SlotID} (hd : Deletes s t p clid sl)
    (h : QueueSound s p) : t.waiting p = (s.waiting p).filter fun a => a ≠ sl := by
  have hcurrent := current_delete h hd.current hd.resolving hd.slots
  have hfilter : ∀ slots : List SlotID, slots.filter (fun a => t.Current p a) =
      (slots.filter fun a => s.Current p a).filter fun a => a ≠ sl := fun slots => by
    rw [List.filter_filter]
    refine List.filter_congr fun a _ => ?_
    rw [decide_eq_decide.mpr (hcurrent a), Bool.decide_and, Bool.and_comm]
  rcases hd.queue with hslots | hslots
  · rw [Session.waiting, hslots, hfilter]
    rfl
  · rw [Session.waiting, hslots, hfilter, Session.waiting, List.filter_filter, List.filter_filter,
      List.filter_filter]
    exact List.filter_congr fun a _ => by simp [Bool.and_comm]

theorem Deletes.mem_waiting {clid : ClientID} {sl : SlotID} (hd : Deletes s t p clid sl)
    (h : QueueSound s p) : sl ∈ s.waiting p := by
  obtain ⟨hmem, hclient⟩ := h.held clid sl hd.current
  refine List.mem_filter.mpr ⟨hmem, decide_eq_true ?_⟩
  rw [Session.Current, hclient, hd.current]

/-- A request leaves before it is announced. -/
theorem leave (h : Joined ledger s code p) {clid : ClientID} {sl : SlotID}
    (hd : Deletes s t p clid sl) (hshown : (t.pubs p).shown = (s.pubs p).shown)
    (hnextRequest : t.nextRequest = s.nextRequest) (hrequests : t.requests = s.requests)
    (hcode : Op.advance p ∈ code' ∨ (LookedUp t p ∧ Op.announce p ∈ code')) :
    Joined (ledger ++ [.left sl]) t code' p where
  queue := hd.sound h.queue
  balanced := by
    rw [hd.waiting h.queue]
    exact h.balanced.leave (hd.mem_waiting h.queue)
  arrived a ha := by
    rw [Tickets.arrivals_append] at ha
    exact hd.nextSlot ▸ h.arrived a ((List.mem_append.mp ha).resolve_right nofun)
  sorted := by
    rw [Tickets.arrivals_append]
    exact (List.append_nil _).symm ▸ h.sorted
  shown := by
    rw [Tickets.servings_append, hshown]
    refine (List.append_nil _).symm ▸ h.shown.imp fun a r hr => ?_
    exact answers_mono hr hd.nextSlot.ge hnextRequest.ge
      (fun _ _ => by rw [hd.slots]; exact .refl _) fun _ _ => by rw [hrequests]
  lookedUp := hcode.imp_right And.left
  atTurn := hcode.imp_right fun hc => Or.inl hc.2

/-- The step is one of another stream's queue. -/
theorem elsewhere (h : Joined ledger s code p) (hpub : t.pubs p = s.pubs p)
    (hslots : t.slots = s.slots) (hnextSlot : t.nextSlot = s.nextSlot)
    (hnextRequest : s.nextRequest ≤ t.nextRequest) (hnextPub : t.nextPub = s.nextPub)
    (hasked : ∀ r < s.nextRequest, (t.requests r).asked = (s.requests r).asked)
    (hadvance : Op.advance p ∈ code → Op.advance p ∈ code')
    (hannounce : Op.announce p ∈ code → Op.announce p ∈ code') : Joined ledger t code' p :=
  h.frame (by rw [hpub]) (by rw [hpub]) (by rw [hpub]) (by rw [hpub]; exact id) hnextSlot.ge
    hnextRequest hnextPub.ge (fun _ _ => by rw [hslots]; exact .refl _) hasked
    (fun _ _ hi => Or.inl (by rw [hslots, hi])) hadvance hannounce

theorem splice_eq {slots : List SlotID} {sl : SlotID} (hmem : sl ∈ slots)
    (hsorted : slots.Pairwise (· < ·)) :
    Streams.splice slots sl = slots.filter fun a => a ≠ sl := by
  have hnodup : slots.Nodup := hsorted.imp Nat.ne_of_lt
  rw [Streams.splice, if_pos hmem, hnodup.erase_eq_filter]
  refine List.filter_congr fun a _ => ?_
  by_cases ha : a = sl <;> simp [ha]

theorem dropPending {x : Streams} {q : PubID} {clid : ClientID}
    (h : Joined ledger x.toSession (.dropPending q clid :: code) p) :
    Joined (ledger ++
        if q = p then ((x.pubs p).resolving.get? clid).toList.map .left else [])
      (x.dropPending q clid).1.toSession ((x.dropPending q clid).2 ++ code) p := by
  unfold Streams.dropPending
  by_cases hq : q = p
  · subst hq
    rw [if_pos rfl]
    split
    · rename_i hnone
      rw [hnone]
      exact (List.append_nil _).symm ▸ h.aside (.refl _) (mem_rest Op.noConfusion) (mem_rest Op.noConfusion)
    · rename_i sl hc
      rw [hc]
      let t : Streams := x.modifyPub q fun pub =>
        { pub with
          resolving := pub.resolving.delete clid
          slots := if (x.slots sl).looking then pub.slots else Streams.splice pub.slots sl }
      have hpub : t.pubs q = { x.pubs q with
          resolving := (x.pubs q).resolving.delete clid
          slots := if (x.slots sl).looking then (x.pubs q).slots
            else Streams.splice (x.pubs q).slots sl } := if_pos rfl
      have hqueue : (t.pubs q).slots = (x.pubs q).slots ∨
          (t.pubs q).slots = (x.pubs q).slots.filter fun a => a ≠ sl := by
        rw [hpub]
        dsimp only
        split
        · exact Or.inl rfl
        · exact Or.inr (splice_eq (h.queue.held clid sl hc).1 h.queue.sorted)
      have hd : Deletes x.toSession t.toSession q clid sl :=
        ⟨hc, hqueue, by rw [hpub], by rw [hpub], rfl, rfl, rfl⟩
      exact h.leave hd (by rw [hpub]; rfl) rfl rfl (Or.inl List.mem_cons_self)
  · rw [if_neg hq, List.append_nil]
    split
    · exact h.aside (.refl _) (mem_rest Op.noConfusion) (mem_rest Op.noConfusion)
    · refine h.elsewhere ?_ rfl rfl (Nat.le_refl _) rfl (fun _ _ => rfl) (mem_rest Op.noConfusion)
        (mem_rest Op.noConfusion)
      exact if_neg (Ne.symm hq)

/-- All that wait leave. -/
theorem close (h : Joined ledger s code p) (hqueue : (t.pubs p).slots = [])
    (hresolving : (t.pubs p).resolving = .empty) (hshown : (t.pubs p).shown = (s.pubs p).shown)
    (hslots : t.slots = s.slots) (hnextSlot : t.nextSlot = s.nextSlot)
    (hnextRequest : t.nextRequest = s.nextRequest) (hrequests : t.requests = s.requests)
    (hnextPub : t.nextPub = s.nextPub) :
    Joined (ledger ++ (s.waiting p).map .left) t code' p := by
  have hnil : ∀ sl, sl ∉ (t.pubs p).slots := fun sl hsl => by
    rw [hqueue] at hsl
    cases hsl
  exact
    { queue :=
        { sorted := hqueue ▸ .nil
          lt := fun sl hsl => absurd hsl (hnil sl)
          stream := fun sl hsl => absurd hsl (hnil sl)
          held := fun c sl hsl => by
            rw [hresolving] at hsl
            cases hsl
          closed := fun _ => hqueue
          unborn := fun hle =>
            ⟨hqueue, hresolving, hshown.trans (h.queue.unborn (hnextPub ▸ hle)).2.2⟩ }
      balanced := by
        have hwaiting : t.waiting p = [] := by
          rw [Session.waiting, hqueue]
          rfl
        rw [hwaiting]
        exact h.balanced.close
      arrived := fun sl hsl => by
        rw [Tickets.arrivals_append, Tickets.arrivals_left, List.append_nil] at hsl
        exact hnextSlot ▸ h.arrived sl hsl
      sorted := by
        rw [Tickets.arrivals_append, Tickets.arrivals_left, List.append_nil]
        exact h.sorted
      shown := by
        rw [Tickets.servings_append, Tickets.servings_left, List.append_nil, hshown]
        refine h.shown.imp fun sl r hr => ?_
        exact answers_mono hr hnextSlot.ge hnextRequest.ge
          (fun _ _ => by rw [hslots]; exact .refl _) fun _ _ => by rw [hrequests]
      lookedUp := Or.inr fun sl hsl => absurd hsl (hnil sl)
      atTurn := Or.inr (Or.inr fun sl hsl => absurd (List.mem_of_mem_head? hsl) (hnil sl)) }

/-- The stream ends. -/
theorem finish {x : Streams} {q : PubID} {ended : StreamEnded}
    (h : Joined ledger x.toSession (.finish q ended :: code) p) :
    Joined (ledger ++
        if q = p ∧ (x.pubs p).ended = false then (x.waiting p).map .left else [])
      (x.finish q ended).1.toSession ((x.finish q ended).2 ++ code) p := by
  unfold Streams.finish
  by_cases hq : q = p
  · subst hq
    by_cases hended : (x.pubs q).ended = true
    · rw [if_pos hended, if_neg (by simp [hended]), List.append_nil]
      exact h.aside (.refl _) (mem_rest nofun) (mem_rest nofun)
    · rw [if_neg hended, if_pos ⟨rfl, Bool.eq_false_iff.mpr hended⟩]
      have hpub : ∀ f, (x.modifyPub q f).pubs q = f (x.pubs q) := fun f => if_pos rfl
      refine h.close ?_ ?_ ?_ rfl rfl rfl rfl rfl
      · rw [hpub]
      · rw [hpub]
      · rw [hpub]
        rfl
  · rw [if_neg fun hc => hq hc.1, List.append_nil]
    split
    · exact h.aside (.refl _) (mem_rest nofun) (mem_rest nofun)
    · refine h.elsewhere ?_ rfl rfl (Nat.le_refl _) rfl (fun _ _ => rfl) (mem_rest nofun)
        (mem_rest nofun)
      exact if_neg (Ne.symm hq)

/-! ### Lookups -/

theorem identified {x : Streams} {sl : SlotID} {identity : Identity}
    (h : Joined ledger x.toSession [] p)
    (hlooking : ∀ sl, (x.slots sl).looking = true → (x.slots sl).identity = none) :
    Joined ledger (x.identified sl identity).1.toSession (x.identified sl identity).2 p := by
  rw [Streams.identified]
  split
  · rename_i hout
    let t : Streams := x.modifySlot sl fun slot =>
      { slot with looking := false, identity := some identity }
    have hother : ∀ a, a ≠ sl → t.slots a = x.slots a := fun a ha => if_neg ha
    have hself : t.slots sl =
        { x.slots sl with looking := false, identity := some identity } := if_pos rfl
    have hkept : ∀ a, (x.slots a).Kept (t.slots a) := fun a => by
      by_cases ha : a = sl
      · rw [ha, hself]
        exact ⟨rfl, rfl, rfl, fun i hi => absurd ((hlooking sl hout).symm.trans hi) nofun,
          fun _ => Or.inl rfl⟩
      · rw [hother a ha]
        exact .refl _
    refine h.frame (t := t.toSession) rfl rfl rfl id (Nat.le_refl _) (Nat.le_refl _)
      (Nat.le_refl _) (fun a _ => hkept a) (fun _ _ => rfl) (fun head hmem hi => ?_) nofun nofun
    -- What the lookup of the head comes to, the head's stream goes on from.
    by_cases ha : head = sl
    · refine Or.inr ?_
      rw [← ha, h.queue.stream head (List.mem_of_mem_head? hmem)]
      exact List.mem_singleton_self _
    · exact Or.inl ((congrArg Slot.identity (hother head ha)).trans hi)
  · exact h

/-- What the lookups of some slots come to. -/
structure Looks (p : PubID) (x y : Streams) (slots : List SlotID) : Prop where
  frame : y = { x with slots := y.slots }
  each : ∀ sl, y.slots sl = x.slots sl ∨
    (sl ∈ slots ∧ x.Current p sl) ∧
      (x.slots sl).identity = none ∧ (x.slots sl).looking = false ∧
      (y.slots sl = { x.slots sl with looking := true } ∨
        ∃ identity, x.view (x.slots sl).clientId = some identity ∧
          y.slots sl = { x.slots sl with identity := some identity })

theorem Looks.kept {x y : Streams} {slots : List SlotID} (h : Looks p x y slots) (sl : SlotID) :
    (x.slots sl).Kept (y.slots sl) := by
  rcases h.each sl with he | ⟨-, hi, hl, he | ⟨identity, -, he⟩⟩
  · rw [he]
    exact .refl _
  · rw [he]
    exact ⟨rfl, rfl, rfl, fun i hi' => absurd (hi.symm.trans hi') nofun,
      fun hl' => absurd (hl.symm.trans hl') nofun⟩
  · rw [he]
    exact ⟨rfl, rfl, rfl, fun i hi' => absurd (hi.symm.trans hi') nofun,
      fun hl' => absurd (hl.symm.trans hl') nofun⟩

/-- The slot is looked up, unless it is not current. -/
def Settled (s : Session) (p : PubID) (sl : SlotID) : Prop :=
  s.Current p sl → (s.slots sl).identity.isSome = true ∨ (s.slots sl).looking = true

theorem Looks.current {x y : Streams} {slots : List SlotID} (h : Looks p x y slots)
    (sl : SlotID) : y.Current p sl ↔ x.Current p sl := by
  have hpubs : y.pubs = x.pubs := by rw [h.frame]
  rw [Session.Current, Session.Current, hpubs, (h.kept sl).clientId]

theorem Looks.settled {x y : Streams} {slots : List SlotID} (h : Looks p x y slots) {sl : SlotID}
    (hs : Settled x.toSession p sl) : Settled y.toSession p sl := by
  intro hc
  rcases hs ((h.current sl).mp hc) with hi | hi
  · obtain ⟨identity, hi⟩ := Option.isSome_iff_exists.mp hi
    exact Or.inl (by rw [(h.kept sl).identity identity hi]; rfl)
  · exact (h.kept sl).looking hi

theorem Looks.trans {x y z : Streams} {slots slots' : List SlotID} (h : Looks p x y slots)
    (h' : Looks p y z slots') : Looks p x z (slots ++ slots') where
  frame := by
    rw [h'.frame, h.frame]
  each sl := by
    have hview : y.view = x.view := by rw [h.frame]
    rcases h'.each sl with he' | ⟨hmem', hi', hl', he'⟩
    · rw [he']
      exact (h.each sl).imp_right fun hl => ⟨⟨List.mem_append_left _ hl.1.1, hl.1.2⟩, hl.2⟩
    · -- A slot that was looked up, or is, is not looked up again.
      have hsame : y.slots sl = x.slots sl := by
        rcases h.each sl with he | ⟨-, -, -, he | ⟨identity, -, he⟩⟩
        · exact he
        · rw [he] at hl'
          cases hl'
        · rw [he] at hi'
          cases hi'
      rw [hsame] at hi' hl' he'
      rw [hview] at he'
      exact Or.inr ⟨⟨List.mem_append_right _ hmem'.1, (h.current sl).mp hmem'.2⟩, hi', hl', he'⟩

theorem looks_refl (p : PubID) (x : Streams) (slots : List SlotID) : Looks p x x slots :=
  ⟨rfl, fun _ => Or.inl rfl⟩

theorem looks_lookUp (x : Streams) (p : PubID) (sl : SlotID) :
    Looks p x (Streams.lookUp p x sl) [sl] ∧ Settled (Streams.lookUp p x sl).toSession p sl := by
  rw [Streams.lookUp]
  split
  · rename_i hdone
    exact ⟨looks_refl p x _, fun _ => hdone⟩
  rename_i hidle
  rw [not_or, Bool.not_eq_true, Bool.not_eq_true, Option.isSome_eq_false_iff,
    Option.isNone_iff_eq_none] at hidle
  have hother : ∀ f a, a ≠ sl → (x.modifySlot sl f).slots a = x.slots a := fun f a ha => if_neg ha
  have hself : ∀ f, (x.modifySlot sl f).slots sl = f (x.slots sl) := fun f => if_pos rfl
  split
  · rename_i hc
    exact ⟨looks_refl p x _, fun hc' => absurd hc' hc⟩
  rename_i hc
  rw [not_not] at hc
  split
  · rename_i identity hview
    refine ⟨⟨rfl, fun a => ?_⟩, fun _ => Or.inl (by rw [hself]; rfl)⟩
    by_cases ha : a = sl
    · subst ha
      exact Or.inr
        ⟨⟨List.mem_singleton_self _, hc⟩, hidle.1, hidle.2, Or.inr ⟨identity, hview, hself _⟩⟩
    · exact Or.inl (hother _ a ha)
  · refine ⟨⟨rfl, fun a => ?_⟩, fun _ => Or.inr (by rw [hself])⟩
    by_cases ha : a = sl
    · subst ha
      exact Or.inr ⟨⟨List.mem_singleton_self _, hc⟩, hidle.1, hidle.2, Or.inl (hself _)⟩
    · exact Or.inl (hother _ a ha)

theorem looks_foldl (p : PubID) (slots : List SlotID) (x : Streams) :
    Looks p x (slots.foldl (Streams.lookUp p) x) slots ∧
      ∀ sl ∈ slots, Settled (slots.foldl (Streams.lookUp p) x).toSession p sl := by
  induction slots generalizing x with
  | nil => exact ⟨looks_refl p x _, nofun⟩
  | cons sl slots ih =>
    obtain ⟨hlook, hsettled⟩ := looks_lookUp x p sl
    obtain ⟨hlooks, hall⟩ := ih (Streams.lookUp p x sl)
    refine ⟨hlook.trans hlooks, fun a ha => ?_⟩
    rcases List.mem_cons.mp ha with ha | ha
    · rw [ha]
      exact hlooks.settled hsettled
    · exact hall a ha

theorem advance {x : Streams} {q : PubID}
    (h : Joined ledger x.toSession (.advance q :: code) p) (hq : QueueSound x.toSession q) :
    Joined ledger (x.advance q).1.toSession ((x.advance q).2 ++ code) p := by
  obtain ⟨hlooks, hsettled⟩ := looks_foldl q (x.pubs q).slots x
  unfold Streams.advance
  generalize (x.pubs q).slots.foldl (Streams.lookUp q) x = y at hlooks hsettled
  have hpubs : y.pubs = x.pubs := by rw [hlooks.frame]
  have hnextSlot : y.nextSlot = x.nextSlot := by rw [hlooks.frame]
  have hnextRequest : y.nextRequest = x.nextRequest := by rw [hlooks.frame]
  have hnextPub : y.nextPub = x.nextPub := by rw [hlooks.frame]
  have hrequests : y.requests = x.requests := by rw [hlooks.frame]
  have hmem : ∀ op, op ≠ .advance q → op ∈ Op.advance q :: code → op ∈ Op.announce q :: code :=
    fun op hne hop => List.mem_cons_of_mem _ ((List.mem_cons.mp hop).resolve_left hne)
  by_cases hp : p = q
  · subst hp
    have hframe : Joined ledger y.toSession (.advance p :: code) p :=
      h.frame (by rw [hpubs]) (by rw [hpubs]) (by rw [hpubs]) (by rw [hpubs]; exact id)
        hnextSlot.ge hnextRequest.ge hnextPub.ge (fun sl _ => hlooks.kept sl)
        (fun _ _ => by rw [hrequests]) (fun _ _ _ => Or.inr List.mem_cons_self) id id
    exact
      { queue := hframe.queue
        balanced := hframe.balanced
        arrived := hframe.arrived
        sorted := hframe.sorted
        shown := hframe.shown
        lookedUp := Or.inr fun sl hsl hc => hsettled sl (by rwa [hpubs] at hsl) hc
        atTurn := Or.inr (Or.inl List.mem_cons_self) }
  · refine h.frame (by rw [hpubs]) (by rw [hpubs]) (by rw [hpubs]) (by rw [hpubs]; exact id)
      hnextSlot.ge hnextRequest.ge hnextPub.ge (fun sl _ => hlooks.kept sl)
      (fun _ _ => by rw [hrequests]) (fun head hhead hi => Or.inl ?_)
      (hmem _ fun heq => hp (Op.advance.inj heq)) (hmem _ nofun)
    -- A slot of another stream is not looked up here.
    rcases hlooks.each head with he | ⟨⟨hslots, -⟩, -⟩
    · rw [he, hi]
    · have hstream := h.queue.stream head (List.mem_of_mem_head? hhead)
      exact absurd (hstream.symm.trans (hq.stream head hslots)) hp

/-! ### Announcing -/

/-- The request whose turn it is has not been looked up yet. -/
theorem rest (h : Joined ledger s (.announce p :: code) p) (hturn : AtTurn s p) :
    Joined ledger s code p where
  queue := h.queue
  balanced := h.balanced
  arrived := h.arrived
  sorted := h.sorted
  shown := h.shown
  lookedUp := by
    refine h.lookedUp.imp_left fun hmem => ?_
    exact (List.mem_cons.mp hmem).resolve_left nofun
  atTurn := Or.inr (Or.inr hturn)

/-- A slot at the front that is no longer current is passed over. -/
theorem shift (h : Joined ledger s (.announce p :: code) p) {head : SlotID} {slots : List SlotID}
    (hqueue : (s.pubs p).slots = head :: slots) (hc : ¬s.Current p head)
    (hpub : t.pubs p = { s.pubs p with slots }) (hslots : t.slots = s.slots)
    (hnextSlot : t.nextSlot = s.nextSlot) (hnextRequest : t.nextRequest = s.nextRequest)
    (hrequests : t.requests = s.requests) (hnextPub : t.nextPub = s.nextPub) :
    Joined ledger t (.announce p :: code) p := by
  have hmem : ∀ sl ∈ slots, sl ∈ (s.pubs p).slots := fun sl hsl =>
    hqueue ▸ List.mem_cons_of_mem _ hsl
  have hcurrent : ∀ sl, t.Current p sl ↔ s.Current p sl := fun sl => by
    rw [Session.Current, Session.Current, hpub, hslots]
  have hsorted := h.queue.sorted
  rw [hqueue, List.pairwise_cons] at hsorted
  exact
    { queue :=
        { sorted := by
            rw [hpub]
            exact hsorted.2
          lt := fun sl hsl => by
            rw [hpub] at hsl
            rw [hnextSlot]
            exact h.queue.lt sl (hmem sl hsl)
          stream := fun sl hsl => by
            rw [hpub] at hsl
            rw [hslots]
            exact h.queue.stream sl (hmem sl hsl)
          held := fun c sl hsl => by
            rw [hpub] at hsl
            obtain ⟨hin, hclient⟩ := h.queue.held c sl hsl
            rw [hpub, hslots]
            rw [hqueue] at hin
            refine ⟨(List.mem_cons.mp hin).resolve_left fun heq => hc ?_, hclient⟩
            rw [← heq, Session.Current, hclient, hsl]
          closed := fun he => by
            rw [hpub] at he
            have hnil := h.queue.closed he
            rw [hqueue] at hnil
            cases hnil
          unborn := fun hle => by
            have hnil := (h.queue.unborn (hnextPub ▸ hle)).1
            rw [hqueue] at hnil
            cases hnil }
      balanced := by
        have hwaiting : t.waiting p = s.waiting p := by
          rw [Session.waiting, Session.waiting, hqueue, List.filter_cons_of_neg (by simp [hc]),
            hpub]
          exact List.filter_congr fun sl _ => decide_eq_decide.mpr (hcurrent sl)
        rw [hwaiting]
        exact h.balanced
      arrived := hnextSlot ▸ h.arrived
      sorted := h.sorted
      shown := by
        rw [hpub]
        exact h.shown.imp fun sl r hr => answers_mono hr hnextSlot.ge hnextRequest.ge
          (fun _ _ => by rw [hslots]; exact .refl _) fun _ _ => by rw [hrequests]
      lookedUp := h.lookedUp.imp_right fun hl sl hsl hsl' => by
        rw [hpub] at hsl
        rw [hslots]
        exact hl sl (hmem sl hsl) ((hcurrent sl).mp hsl')
      atTurn := Or.inr (Or.inl List.mem_cons_self) }

theorem Deletes.lookedUp {clid : ClientID} {sl : SlotID} (hd : Deletes s t p clid sl)
    (h : QueueSound s p) (hl : LookedUp s p) : LookedUp t p := by
  intro a ha hc
  have hmem : a ∈ (s.pubs p).slots := by
    rcases hd.queue with hq | hq
    · rwa [hq] at ha
    · rw [hq] at ha
      exact List.mem_of_mem_filter ha
  rw [hd.slots]
  exact hl a hmem ((current_delete h hd.current hd.resolving hd.slots a).mp hc).1

/-- The request whose turn it is is announced. -/
theorem serve (h : Joined ledger s code p) {clid : ClientID} {head : SlotID}
    {slots : List SlotID} {identity : Identity} (hd : Deletes s t p clid head)
    (hqueue : (s.pubs p).slots = head :: slots)
    (hidentity : (s.slots head).identity = some identity)
    (hshown : (t.pubs p).shown = (s.pubs p).shown ++ [s.nextRequest])
    (hnextRequest : t.nextRequest = s.nextRequest + 1)
    (hasked : ∀ r < s.nextRequest, (t.requests r).asked = (s.requests r).asked)
    (hnew : (t.requests s.nextRequest).asked =
      (p, (s.slots head).clientId, identity, (s.slots head).message))
    (hcode : Op.advance p ∈ code' ∨ (LookedUp t p ∧ Op.announce p ∈ code')) :
    Joined (ledger ++ [.served head]) t code' p := by
  have hc : s.Current p head :=
    decide_eq_true_iff.mp (List.mem_filter.mp (hd.mem_waiting h.queue)).2
  have hfront : s.waiting p = head :: slots.filter fun sl => s.Current p sl := by
    rw [Session.waiting, hqueue]
    exact List.filter_cons_of_pos (by simpa using hc)
  have hsorted := h.queue.sorted
  rw [hqueue, List.pairwise_cons] at hsorted
  have hwaiting : t.waiting p = slots.filter fun sl => s.Current p sl := by
    rw [hd.waiting h.queue, hfront, List.filter_cons_of_neg (by simp), List.filter_eq_self]
    intro a ha
    exact decide_eq_true (Nat.ne_of_gt (hsorted.1 a (List.mem_of_mem_filter ha)))
  exact
    { queue := hd.sound h.queue
      balanced := by
        have hb := h.balanced
        rw [hfront] at hb
        rw [hwaiting]
        exact hb.serve
      arrived := fun a ha => by
        rw [Tickets.arrivals_append] at ha
        exact hd.nextSlot ▸ h.arrived a ((List.mem_append.mp ha).resolve_right nofun)
      sorted := by
        rw [Tickets.arrivals_append]
        exact (List.append_nil _).symm ▸ h.sorted
      shown := by
        rw [Tickets.servings_append, hshown]
        refine List.rel_append (h.shown.imp fun a r hr => ?_) (.cons ?_ .nil)
        · exact answers_mono hr hd.nextSlot.ge (hnextRequest ▸ Nat.le_succ _)
            (fun _ _ => by rw [hd.slots]; exact .refl _) hasked
        · refine ⟨?_, hnextRequest ▸ Nat.lt_succ_self _, identity, hd.slots ▸ hidentity, ?_⟩
          · rw [hd.nextSlot]
            exact h.queue.lt head (hqueue ▸ List.mem_cons_self)
          · rw [hnew, hd.slots]
      lookedUp := hcode.imp_right And.left
      atTurn := hcode.imp_right fun hc => Or.inl hc.2 }

/-- What an announcement does to the objects. -/
structure Announces (s t : Session) (p : PubID) (slot : Slot) (identity : Identity) : Prop where
  slots : t.slots = s.slots
  nextSlot : t.nextSlot = s.nextSlot
  nextPub : t.nextPub = s.nextPub
  nextRequest : t.nextRequest = s.nextRequest + 1
  others : ∀ j, j ≠ p → t.pubs j = s.pubs j
  queue : (t.pubs p).slots = (s.pubs p).slots
  resolving : (t.pubs p).resolving = (s.pubs p).resolving.delete slot.clientId
  ended : (t.pubs p).ended = (s.pubs p).ended
  shown : (t.pubs p).shown = (s.pubs p).shown ++ [s.nextRequest]
  old : ∀ r, r ≠ s.nextRequest → t.requests r = s.requests r
  made : (t.requests s.nextRequest).asked = (p, slot.clientId, identity, slot.message)

theorem announceSlot_cases (x : Streams) (p : PubID) (slot : Slot) (identity : Identity) :
    (x.isDenied identity = true ∧ x.announceSlot p slot identity =
      (x.modifyPub p fun pub => { pub with resolving := pub.resolving.delete slot.clientId }, [])) ∨
    (x.isDenied identity = false ∧ (x.announceSlot p slot identity).2 = [.listen] ∧
      Announces x.toSession (x.announceSlot p slot identity).1.toSession p slot identity) := by
  have hdenied : ∀ f, (x.modifyPub p f).isDenied identity = x.isDenied identity := fun _ => rfl
  unfold Streams.announceSlot
  dsimp only
  rw [hdenied]
  cases hx : x.isDenied identity with
  | true => exact Or.inl ⟨rfl, if_pos rfl⟩
  | false =>
    rw [if_neg nofun]
    refine Or.inr ⟨rfl, rfl, ?_⟩
    exact
      { slots := rfl
        nextSlot := rfl
        nextPub := rfl
        nextRequest := rfl
        others := fun j hj => (if_neg hj).trans (if_neg hj)
        queue := by simp [Streams.modifyPub, Streams.modifyRequest]
        resolving := by simp [Streams.modifyPub, Streams.modifyRequest]
        ended := by simp [Streams.modifyPub, Streams.modifyRequest]
        shown := by
          simp [Streams.modifyPub, Streams.modifyRequest, Published.shown, PubEvent.request?]
        old := fun r hr => if_neg hr
        made := congrArg JoinRequest.asked (if_pos rfl) }

/-- The second loop of `#advance`, for a stream of another number. -/
theorem announce_elsewhere {x : Streams} {q : PubID} (hq : q ≠ p)
    (h : Joined ledger x.toSession (.announce q :: code) p) :
    Joined ledger (x.announce q).1.toSession ((x.announce q).2 ++ code) p := by
  have hadvance : ∀ {ops : List Op}, Op.advance p ∈ Op.announce q :: code →
      Op.advance p ∈ ops ++ code := mem_rest nofun
  have hannounce : ∀ {ops : List Op}, Op.announce p ∈ Op.announce q :: code →
      Op.announce p ∈ ops ++ code := mem_rest fun he => hq (Op.announce.inj he).symm
  have hpub : ∀ (y : Streams) f, (y.modifyPub q f).pubs p = y.pubs p :=
    fun y f => if_neg (Ne.symm hq)
  rw [Streams.announce]
  split
  · exact h.aside (.refl _) hadvance hannounce
  rename_i head slots hqueue
  dsimp only
  split
  · split
    · exact h.aside (.refl _) hadvance hannounce
    · rename_i identity hsome
      rcases announceSlot_cases (x.modifyPub q fun pub => { pub with slots }) q (x.slots head)
        identity with ⟨-, he⟩ | ⟨-, -, he⟩
      · rw [he]
        refine h.elsewhere ?_ rfl rfl (Nat.le_refl _) rfl (fun _ _ => rfl) hadvance hannounce
        rw [hpub, hpub]
      · refine h.elsewhere ?_ he.slots he.nextSlot (he.nextRequest ▸ Nat.le_succ _) he.nextPub
          (fun r hr => congrArg _ (he.old r (Nat.ne_of_lt hr))) hadvance hannounce
        rw [he.others p (Ne.symm hq), hpub]
  · refine h.elsewhere ?_ rfl rfl (Nat.le_refl _) rfl (fun _ _ => rfl) hadvance hannounce
    rw [hpub]

theorem announce {x : Streams} {q : PubID}
    (h : Joined ledger x.toSession (.announce q :: code) p) :
    Joined (ledger ++ if q = p then x.turnOf p else [])
      (x.announce q).1.toSession ((x.announce q).2 ++ code) p := by
  by_cases hq : q = p
  swap
  · rw [if_neg hq, List.append_nil]
    exact h.announce_elsewhere hq
  subst hq
  rw [if_pos rfl]
  unfold Streams.announce Streams.turnOf
  have hpub : ∀ (y : Streams) f, (y.modifyPub q f).pubs q = f (y.pubs q) := fun y f => if_pos rfl
  rcases hqueue : (x.pubs q).slots with _ | ⟨head, slots⟩
  · exact (List.append_nil _).symm ▸ h.rest fun head hmem => by
      rw [hqueue] at hmem
      cases hmem
  dsimp only
  have hover : (x.pubs q).ended = false := by
    by_contra hended
    have hnil := h.queue.closed (Bool.not_eq_false _ ▸ hended)
    rw [hqueue] at hnil
    cases hnil
  by_cases hc : x.Current q head
  swap
  · rw [if_neg hc, if_neg fun hb => hc hb.1, List.append_nil]
    exact h.shift hqueue hc (hpub x _) rfl rfl rfl rfl rfl
  rw [if_pos hc, if_pos ⟨hc, hover⟩]
  rcases hsome : (x.slots head).identity with _ | identity
  · refine (List.append_nil _).symm ▸ h.rest fun a ha => ?_
    rw [hqueue] at ha
    cases ha
    exact ⟨hc, hsome⟩
  have hsorted := h.queue.sorted
  rw [hqueue, List.pairwise_cons] at hsorted
  have hslots : slots = (x.pubs q).slots.filter fun a => a ≠ head := by
    rw [hqueue, List.filter_cons_of_neg (by simp), eq_comm, List.filter_eq_self]
    exact fun a ha => decide_eq_true (Nat.ne_of_gt (hsorted.1 a ha))
  have hcode : ∀ {t : Session} {ops : List Op},
      Deletes x.toSession t q (x.slots head).clientId head →
      Op.advance q ∈ (ops ++ [.announce q]) ++ code ∨
        (LookedUp t q ∧ Op.announce q ∈ (ops ++ [.announce q]) ++ code) := fun hd => by
    rcases h.lookedUp with hop | hl
    · exact Or.inl (mem_rest (by nofun) hop)
    · refine Or.inr ⟨hd.lookedUp h.queue hl, ?_⟩
      exact List.mem_append_left _ (List.mem_append_right _ (List.mem_singleton_self _))
  rcases announceSlot_cases (x.modifyPub q fun pub => { pub with slots }) q (x.slots head)
    identity with ⟨hdenied, he⟩ | ⟨hdenied, -, he⟩
  · have hdenied : x.isDenied identity = true := hdenied
    dsimp only
    rw [hdenied, if_pos rfl, he]
    have hd : Deletes x.toSession ((x.modifyPub q fun pub => { pub with slots }).modifyPub q
        fun pub => { pub with resolving := pub.resolving.delete (x.slots head).clientId }).toSession
        q (x.slots head).clientId head := by
      refine ⟨hc, Or.inr ?_, ?_, ?_, rfl, rfl, rfl⟩
      · rw [hpub, hpub]
        exact hslots
      · rw [hpub, hpub]
      · rw [hpub, hpub]
    refine h.leave hd ?_ rfl rfl (hcode hd)
    rw [hpub, hpub]
    rfl
  · have hdenied : x.isDenied identity = false := hdenied
    dsimp only
    rw [hdenied, if_neg nofun]
    have hd : Deletes x.toSession ((x.modifyPub q fun pub => { pub with slots }).announceSlot q
        (x.slots head) identity).1.toSession q (x.slots head).clientId head := by
      refine ⟨hc, Or.inr ?_, ?_, ?_, he.slots, he.nextSlot, he.nextPub⟩
      · rw [he.queue, hpub]
        exact hslots
      · rw [he.resolving, hpub]
      · rw [he.ended, hpub]
    refine h.serve hd hqueue hsome ?_ he.nextRequest
      (fun r hr => congrArg _ (he.old r (Nat.ne_of_lt hr))) he.made (hcode hd)
    rw [he.shown, hpub]
    rfl

end Joined

/-! ### Runs -/

/-- In this step the lookup that is out for the slot is answered so, or the slot, current, is
looked up and that client is in view. -/
def FoundAt (s : Streams) (l : Label Call Event) (sl : SlotID) (clid : ClientID)
    (identity : Identity) : Prop :=
  (l = .event (.identified sl identity) ∧ (s.slots sl).looking = true) ∨
    (l = .go ∧ (∃ p, s.Current p sl) ∧ s.view clid = some identity)

/-- Who a slot's client is was looked up for that slot. -/
structure Lookups (F : SlotID → ClientID → Identity → Prop) (s : Session) : Prop where
  looking : ∀ sl, (s.slots sl).looking = true → (s.slots sl).identity = none
  found : ∀ sl identity, (s.slots sl).identity = some identity →
    F sl (s.slots sl).clientId identity

/-- What holds after every step. -/
structure InTurn (F : SlotID → ClientID → Identity → Prop)
    (ledger : PubID → List (TicketEvent SlotID)) (s : Session) (code : List Op) : Prop where
  joined : ∀ p, Joined (ledger p) s code p
  born : ∀ id p, s.published.get? id = some p → p < s.nextPub
  lookups : Lookups F s

namespace InTurn

variable {F F' : SlotID → ClientID → Identity → Prop}
  {ledger : PubID → List (TicketEvent SlotID)} {code code' : List Op} {x : Streams}

theorem lookups_congr (h : Lookups F s) (hF : ∀ sl c i, F sl c i → F' sl c i)
    (hslots : t.slots = s.slots) : Lookups F' t where
  looking := hslots ▸ h.looking
  found sl identity hi := by
    rw [hslots] at hi ⊢
    exact hF _ _ _ (h.found sl identity hi)

/-- A step that does not touch the queues. -/
theorem aside (h : InTurn F ledger s code) (hF : ∀ sl c i, F sl c i → F' sl c i)
    (ha : Aside s t) (hadvance : ∀ p, Op.advance p ∈ code → Op.advance p ∈ code')
    (hannounce : ∀ p, Op.announce p ∈ code → Op.announce p ∈ code') :
    InTurn F' (fun p => ledger p ++ []) t code' where
  joined p := (List.append_nil _).symm ▸ (h.joined p).aside ha (hadvance p) (hannounce p)
  born := ha.born h.born
  lookups := lookups_congr h.lookups hF ha.slots

theorem lookups_requestViewer (h : Lookups F x.toSession) (hF : ∀ sl c i, F sl c i → F' sl c i)
    (p : PubID) (clid : ClientID) (message : Str) :
    Lookups F' (x.requestViewer p clid message).1.toSession := by
  rw [Streams.requestViewer]
  dsimp only
  split
  · exact lookups_congr h hF rfl
  split
  · exact lookups_congr h hF rfl
  let t : Streams := (({ x with nextSlot := x.nextSlot + 1 }.modifySlot x.nextSlot fun _ =>
    { stream := p, clientId := clid, message }).modifyPub p fun pub =>
      { pub with
        resolving := pub.resolving.set clid x.nextSlot
        slots := pub.slots ++ [x.nextSlot] })
  have hslot : ∀ sl, t.slots sl = if sl = x.nextSlot then
      { stream := p, clientId := clid, message } else x.slots sl := fun _ => rfl
  change Lookups F' t.toSession
  constructor
  · intro sl hl
    rw [hslot] at hl ⊢
    split at hl
    · cases hl
    · rename_i hne
      rw [if_neg hne]
      exact h.looking sl hl
  · intro sl identity hi
    rw [hslot] at hi ⊢
    split at hi
    · cases hi
    · rename_i hne
      rw [if_neg hne]
      exact hF _ _ _ (h.found sl identity hi)

theorem lookups_identified (h : Lookups F x.toSession) (hF : ∀ sl c i, F sl c i → F' sl c i)
    {sl : SlotID} {identity : Identity}
    (hnew : ∀ c, (x.slots sl).looking = true → F' sl c identity) :
    Lookups F' (x.identified sl identity).1.toSession := by
  rw [Streams.identified]
  split
  · rename_i hout
    let t : Streams := x.modifySlot sl fun slot =>
      { slot with looking := false, identity := some identity }
    have hslot : ∀ a, t.slots a = if a = sl then
        { x.slots sl with looking := false, identity := some identity } else x.slots a :=
      fun _ => rfl
    change Lookups F' t.toSession
    constructor
    · intro a hl
      rw [hslot] at hl ⊢
      split at hl
      · cases hl
      · rename_i hne
        rw [if_neg hne]
        exact h.looking a hl
    · intro a i hi
      rw [hslot] at hi ⊢
      split at hi
      · rename_i ha
        cases hi
        rw [if_pos ha, ha]
        exact hnew _ hout
      · rename_i hne
        rw [if_neg hne]
        exact hF _ _ _ (h.found a i hi)
  · exact lookups_congr h hF rfl

theorem lookups_advance (h : Lookups F x.toSession) (hF : ∀ sl c i, F sl c i → F' sl c i)
    (p : PubID) (hview : ∀ sl c identity, x.Current p sl → x.view c = some identity →
      F' sl c identity) :
    Lookups F' (x.advance p).1.toSession := by
  obtain ⟨hlooks, -⟩ := Joined.looks_foldl p (x.pubs p).slots x
  unfold Streams.advance
  generalize (x.pubs p).slots.foldl (Streams.lookUp p) x = y at hlooks
  constructor
  · intro sl hl
    rcases hlooks.each sl with he | ⟨-, hi, hl', he | ⟨identity, -, he⟩⟩
    · rw [he] at hl ⊢
      exact h.looking sl hl
    · rw [he]
      exact hi
    · rw [he] at hl
      exact absurd (hl'.symm.trans hl) nofun
  · intro sl identity hi
    rcases hlooks.each sl with he | ⟨⟨-, hc⟩, hi', hl', he | ⟨identity', hv, he⟩⟩
    · rw [he] at hi ⊢
      exact hF _ _ _ (h.found sl identity hi)
    · rw [he] at hi
      exact absurd (hi'.symm.trans hi) nofun
    · rw [he] at hi ⊢
      cases hi
      exact hview _ _ _ hc hv

theorem onJoinRequest (h : InTurn F ledger x.toSession [])
    (hF : ∀ sl c i, F sl c i → F' sl c i) (params : Params) :
    InTurn F' (fun p => ledger p ++
        arrivals p x.toSession (x.onJoinRequest params).1.toSession)
      (x.onJoinRequest params).1.toSession (x.onJoinRequest params).2 := by
  have hsame : ∀ ops, InTurn F' (fun p => ledger p ++ arrivals p x.toSession x.toSession)
      x.toSession ops := fun ops => by
    have harrivals : (fun p => ledger p ++ arrivals p x.toSession x.toSession) =
        fun p => ledger p ++ [] :=
      funext fun p => congrArg _ (Joined.arrivals_of_eq p rfl)
    rw [harrivals]
    exact h.aside hF (.refl _) nofun nofun
  rw [Streams.onJoinRequest]
  split
  · exact hsame []
  rename_i p hp
  split
  · exact hsame []
  split
  · exact hsame _
  have hborn := h.born _ p hp
  exact
    { joined := fun q => (h.joined q).requestViewer hborn _ _
      born := by
        rw [Streams.requestViewer]
        dsimp only
        split
        · exact h.born
        · split
          · exact h.born
          · exact h.born
      lookups := lookups_requestViewer h.lookups hF p _ _ }

theorem event (h : InTurn F ledger x.toSession []) (hF : ∀ sl c i, F sl c i → F' sl c i)
    {e : Event} (he : ∀ sl c identity, FoundAt x (.event e) sl c identity → F' sl c identity) :
    InTurn F' (fun p => ledger p ++
        arrivals p x.toSession (Streams.event e x).1.toSession)
      (Streams.event e x).1.toSession (Streams.event e x).2 := by
  have hof : ∀ {turn : Turn}, Aside x.toSession turn.1.toSession →
      InTurn F' (fun p => ledger p ++ arrivals p x.toSession turn.1.toSession)
        turn.1.toSession turn.2 := fun {turn} ha => by
    have harrivals : (fun p => ledger p ++ arrivals p x.toSession turn.1.toSession) =
        fun p => ledger p ++ [] :=
      funext fun p => congrArg _ (Joined.arrivals_of_eq p ha.nextSlot)
    rw [harrivals]
    exact h.aside hF ha nofun nofun
  by_cases hjoin : ∃ params, e = .notification (.of "notifyjoinstreamrequest") params
  · obtain ⟨params, rfl⟩ := hjoin
    have hon : x.onNotification (.of "notifyjoinstreamrequest") params =
        x.onJoinRequest params := by
      rw [Streams.onNotification, if_neg (by decide), if_neg (by decide), if_pos rfl]
    rw [Streams.event, Streams.subscribed, hon]
    split
    · exact hof (.refl _)
    · exact h.onJoinRequest hF params
  by_cases hlookup : ∃ sl identity, e = .identified sl identity
  · obtain ⟨sl, identity, rfl⟩ := hlookup
    have hnext : (x.identified sl identity).1.nextSlot = x.nextSlot := by
      rw [Streams.identified]
      split <;> rfl
    have harrivals : (fun p => ledger p ++
        arrivals p x.toSession (x.identified sl identity).1.toSession) = fun p => ledger p :=
      funext fun p => by rw [Joined.arrivals_of_eq p hnext, List.append_nil]
    rw [Streams.event, harrivals]
    exact
      { joined := fun p => (h.joined p).identified h.lookups.looking
        born := by
          rw [Streams.identified]
          split
          · exact h.born
          · exact h.born
        lookups := lookups_identified h.lookups hF fun c hout =>
          he sl c identity (Or.inl ⟨rfl, hout⟩) }
  · refine hof (Aside.event x (fun name params hname heq => hjoin ⟨params, ?_⟩)
      fun sl identity heq => hlookup ⟨sl, identity, heq⟩)
    rw [hname, heq]

/-- What the operations on the queues leave as it is. -/
theorem exec_objects (x : Streams) {op : Op} (hop : Aside.ofQueue op = true) :
    (Streams.exec op x).1.published = x.published ∧ (Streams.exec op x).1.nextPub = x.nextPub ∧
      ((∀ p, op ≠ .advance p) → (Streams.exec op x).1.slots = x.slots) := by
  cases op with
  | dropPending q clid =>
    change (x.dropPending q clid).1.published = _ ∧ (x.dropPending q clid).1.nextPub = _ ∧
      (_ → (x.dropPending q clid).1.slots = _)
    rw [Streams.dropPending]
    split <;> exact ⟨rfl, rfl, fun _ => rfl⟩
  | finish q ended =>
    change (x.finish q ended).1.published = _ ∧ (x.finish q ended).1.nextPub = _ ∧
      (_ → (x.finish q ended).1.slots = _)
    rw [Streams.finish]
    split <;> exact ⟨rfl, rfl, fun _ => rfl⟩
  | advance q =>
    obtain ⟨hlooks, -⟩ := Joined.looks_foldl q (x.pubs q).slots x
    change (x.advance q).1.published = _ ∧ (x.advance q).1.nextPub = _ ∧ _
    rw [Streams.advance]
    exact ⟨by rw [hlooks.frame], by rw [hlooks.frame], fun hne => absurd rfl (hne q)⟩
  | announce q =>
    change (x.announce q).1.published = _ ∧ (x.announce q).1.nextPub = _ ∧
      (_ → (x.announce q).1.slots = _)
    rw [Streams.announce]
    split
    · exact ⟨rfl, rfl, fun _ => rfl⟩
    · dsimp only
      split
      · split
        · exact ⟨rfl, rfl, fun _ => rfl⟩
        · rw [Streams.announceSlot]
          dsimp only
          split <;> exact ⟨rfl, rfl, fun _ => rfl⟩
      · exact ⟨rfl, rfl, fun _ => rfl⟩
  | _ => cases hop

theorem exec {op : Op} (h : InTurn F ledger x.toSession (op :: code))
    (hF : ∀ sl c i, F sl c i → F' sl c i)
    (hgo : ∀ sl c identity, FoundAt x .go sl c identity → F' sl c identity) :
    InTurn F' (fun p => ledger p ++ record p ⟨x, op :: code⟩ .go)
      (Streams.exec op x).1.toSession ((Streams.exec op x).2 ++ code) := by
  by_cases hop : Aside.ofQueue op = true
  swap
  · have hrecord : (fun p => ledger p ++ record p ⟨x, op :: code⟩ .go) =
        fun p => ledger p ++ [] := by
      cases op <;> first | rfl | exact absurd rfl hop
    have hunborn := (h.joined x.nextPub).queue.unborn (Nat.le_refl _)
    rw [hrecord]
    refine h.aside hF (Aside.exec x (Bool.eq_false_iff.mpr hop) hunborn.1 hunborn.2.1 hunborn.2.2)
      (fun p hmem => ?_) fun p hmem => ?_
    · exact Joined.mem_rest (by rintro rfl; exact hop rfl) hmem
    · exact Joined.mem_rest (by rintro rfl; exact hop rfl) hmem
  obtain ⟨hpublished, hnextPub, hslots⟩ := exec_objects x hop
  have hborn : ∀ id p, (Streams.exec op x).1.published.get? id = some p →
      p < (Streams.exec op x).1.nextPub := by
    rw [hpublished, hnextPub]
    exact h.born
  cases op with
  | dropPending q clid =>
    exact ⟨fun p => (h.joined p).dropPending, hborn, lookups_congr h.lookups hF (hslots nofun)⟩
  | finish q ended =>
    exact ⟨fun p => (h.joined p).finish, hborn, lookups_congr h.lookups hF (hslots nofun)⟩
  | announce q =>
    exact ⟨fun p => (h.joined p).announce, hborn, lookups_congr h.lookups hF (hslots nofun)⟩
  | advance q =>
    refine ⟨fun p => ?_, hborn, lookups_advance h.lookups hF q fun sl c identity hc hv =>
      hgo sl c identity (Or.inr ⟨rfl, ⟨q, hc⟩, hv⟩)⟩
    exact (List.append_nil (ledger p)).symm ▸ (h.joined p).advance (h.joined q).queue
  | _ => cases hop

theorem step {l : Label Call Event} (h : InTurn F ledger x.toSession code)
    (hF : ∀ sl c i, F sl c i → F' sl c i)
    (hl : ∀ sl c identity, FoundAt x l sl c identity → F' sl c identity) :
    InTurn F' (fun p => ledger p ++ record p ⟨x, code⟩ l)
      (program.step ⟨x, code⟩ l).state.toSession (program.step ⟨x, code⟩ l).code := by
  cases l with
  | event e =>
    cases code with
    | nil => exact h.event hF hl
    | cons op code =>
      have hrecord : (fun p => ledger p ++ record p ⟨x, op :: code⟩ (.event e)) =
          fun p => ledger p ++ [] :=
        funext fun p => congrArg _ (Joined.arrivals_of_eq p rfl)
      rw [hrecord]
      exact h.aside hF (.refl _) (fun _ h => h) fun _ h => h
  | call k =>
    change InTurn F' (fun p => ledger p ++ []) _ _
    rw [Program.step]
    split
    · exact h.aside hF (Aside.call x k) (fun _ => List.mem_append_right _)
        fun _ => List.mem_append_right _
    · exact h.aside hF (.refl _) (fun _ h => h) fun _ h => h
  | go =>
    cases code with
    | nil => exact h.aside hF (.refl _) (fun _ h => h) fun _ h => h
    | cons op code => exact h.exec hF hl

end InTurn

/-! ### The result -/

/-- A step of the run found that out for the slot. -/
def Found (c : Config Streams Op) (ls : List (Label Call Event)) (sl : SlotID) (clid : ClientID)
    (identity : Identity) : Prop :=
  ∃ before l after, ls = before ++ l :: after ∧
    FoundAt (run program.step c before).state l sl clid identity

theorem Found.mono {c : Config Streams Op} {ls : List (Label Call Event)} {sl : SlotID}
    {clid : ClientID} {identity : Identity} (h : Found c ls sl clid identity)
    (l : Label Call Event) : Found c (ls ++ [l]) sl clid identity := by
  obtain ⟨before, l', after, he, hfound⟩ := h
  exact ⟨before, l', after ++ [l], by rw [he, List.append_assoc, List.cons_append], hfound⟩

end Teamspeak.Stream
