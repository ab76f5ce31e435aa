import Teamspeak.Stream.Peers

/-!
# Watches

What holds of the watches and their views whenever an operation is next, whatever the
listeners do meanwhile.

* `WatchesSound`: `watching` holds the watches that wait and the views that are open, but
  for those about to be closed; a call that has no answer yet has something to wait for,
  and gets one answer.
* `WatchesSound.drop`: watches leave `watching`, each to be closed or refused.
* `WatchesSound.closeWatch`, `WatchesSound.endPeer`: how they close.
* `WatchesSound.setCall`: how a call goes on.
-/

namespace Teamspeak.Stream

/-- The operations that concern watches. -/
def Op.ofWatches : Op → Bool
  | .endPeer _ _ | .closeWatch _ _ _ | .rejectWatch _ _ => true
  | _ => false

/-- The operation that refuses a watch. -/
def Op.rejects (w : WatchID) : Op → Bool
  | .rejectWatch w' _ => w' = w
  | _ => false

/-- A call that has not failed for good. -/
def WatchCall.isOpen : WatchCall → Bool
  | .sending | .waiting | .thrown _ => true
  | .owed | .settled => false

/-- `watching` holds the watch. -/
def Held (s : Session) (w : WatchID) : Prop := s.watching.get? (s.watches w).id = some w

/-- The watch is about to be closed. -/
def WatchCloses (code : List Op) (w : WatchID) : Prop :=
  ∃ gone cause, Op.closeWatch w gone cause ∈ code

/-- What a view that is not held any more still waits for. -/
def ViewEnds (code : List Op) (w : WatchID) (q : PeerID) : Prop :=
  WatchCloses code w ∨ ∃ closed, Op.endPeer q closed ∈ code

theorem ViewEnds.mono {code code' : List Op} (hcode : ∀ op ∈ code, op ∈ code') {w : WatchID}
    {q : PeerID} (h : ViewEnds code w q) : ViewEnds code' w q := by
  rcases h with ⟨gone, cause, hop⟩ | ⟨closed, hop⟩
  · exact Or.inl ⟨gone, cause, hcode _ hop⟩
  · exact Or.inr ⟨closed, hcode _ hop⟩

theorem Outcome.settle_ne_pending {α : Type*} (outcome : Outcome α) (failure : Failure) :
    outcome.settle (.rejected failure) ≠ .pending := by
  cases outcome with
  | pending => exact nofun
  | resolved a => exact nofun
  | rejected failure' => exact nofun

structure WatchesSound (s : Session) (code : List Op) : Prop where
  held : ∀ id w, s.watching.get? id = some w → w < s.nextWatch ∧ (s.watches w).id = id
  waits : ∀ w, Held s w → (s.watches w).view = none →
    (s.watches w).settled = .pending ∧ (s.watches w).call.isOpen = true
  view : ∀ w < s.nextWatch, ∀ q, (s.watches w).view = some q →
    q < s.nextPeer ∧ (s.peers q).owner = .view w ∧ (s.watches w).settled = .resolved q ∧
      (Held s w → (s.peers q).closed = false)
  views : ∀ q < s.nextPeer, ∀ w, (s.peers q).owner = .view w →
    w < s.nextWatch ∧ (s.watches w).view = some q ∧
      ((s.peers q).closed = false → Held s w ∨ ViewEnds code w q)
  unsettled : ∀ w < s.nextWatch, (s.watches w).settled = .pending →
    Held s w ∨ (s.watches w).call = .settled ∨ WatchCloses code w ∨
      ∃ failure, Op.rejectWatch w failure ∈ code
  owed : ∀ w < s.nextWatch, (s.watches w).call = .owed →
    (s.watches w).settled ≠ .pending ∧ ¬Held s w
  closing : ∀ w, WatchCloses code w → w < s.nextWatch ∧ ¬Held s w
  rejecting : ∀ w failure, Op.rejectWatch w failure ∈ code →
    w < s.nextWatch ∧ ¬Held s w ∧ (s.watches w).call = .thrown failure
  once : ∀ w, code.countP (Op.rejects w) ≤ 1
  answered : ∀ w < s.nextWatch,
    (s.watches w).answers.length = if (s.watches w).call = .settled then 1 else 0
  refused : ∀ w < s.nextWatch, ∀ failure, .error failure ∈ (s.watches w).answers → ¬Held s w
  fresh : ∀ w, s.nextWatch ≤ w → (s.watches w).call = .settled

namespace WatchesSound

variable {s s' : Session} {t : Streams} {code code' : List Op} {w : WatchID} {q : PeerID}

theorem lt_of_held (h : WatchesSound s code) (hheld : Held s w) : w < s.nextWatch :=
  (h.held _ w hheld).1

/-! ### What does not concern them -/

/-- What the watches are, for what they wait for. -/
def SameWatch (a b : Watch) : Prop :=
  b.id = a.id ∧ b.view = a.view ∧ b.settled = a.settled ∧ b.call = a.call ∧ b.answers = a.answers

theorem SameWatch.refl (watch : Watch) : SameWatch watch watch := ⟨rfl, rfl, rfl, rfl, rfl⟩

theorem sameWatch_modifyWatch (t : Streams) {w : WatchID} {f : Watch → Watch}
    (hf : SameWatch (t.watches w) (f (t.watches w))) (j : WatchID) :
    SameWatch (t.watches j) ((t.modifyWatch w f).watches j) := by
  rw [Streams.watches_modifyWatch]
  split
  · rename_i hj
    exact hj ▸ hf
  · exact .refl _

/-- Peers may be made for viewers. -/
theorem extend (h : WatchesSound s code) (hwatching : s'.watching = s.watching)
    (hwatches : ∀ w, SameWatch (s.watches w) (s'.watches w))
    (hpeers : ∀ q < s.nextPeer, SamePeer (s.peers q) (s'.peers q))
    (hviewers : ∀ q < s'.nextPeer, s.nextPeer ≤ q → ∀ w, (s'.peers q).owner ≠ .view w)
    (hwatch : s'.nextWatch = s.nextWatch) (hpeer : s.nextPeer ≤ s'.nextPeer) :
    WatchesSound s' code := by
  have hheld : ∀ w, Held s' w ↔ Held s w := by
    intro w
    rw [Held, Held, hwatching, (hwatches w).1]
  constructor
  · intro id w hget
    rw [hwatching] at hget
    rw [hwatch, (hwatches w).1]
    exact h.held id w hget
  · intro w hw hview
    rw [hheld] at hw
    rw [(hwatches w).2.1] at hview
    rw [(hwatches w).2.2.1, (hwatches w).2.2.2.1]
    exact h.waits w hw hview
  · intro w hw q hview
    rw [hwatch] at hw
    rw [(hwatches w).2.1] at hview
    obtain ⟨hq, hrest⟩ := h.view w hw q hview
    rw [(hpeers q hq).1, (hpeers q hq).2.2, (hwatches w).2.2.1, hheld]
    exact ⟨Nat.lt_of_lt_of_le hq hpeer, hrest⟩
  · intro q hq w howner
    have hold : q < s.nextPeer := by
      by_contra hnew
      exact hviewers q hq (Nat.le_of_not_lt hnew) w howner
    rw [(hpeers q hold).1] at howner
    rw [hwatch, (hpeers q hold).2.2, (hwatches w).2.1, hheld]
    exact h.views q hold w howner
  · intro w hw hsettled
    rw [hwatch] at hw
    rw [(hwatches w).2.2.1] at hsettled
    rw [hheld, (hwatches w).2.2.2.1]
    exact h.unsettled w hw hsettled
  · intro w hw hcall
    rw [hwatch] at hw
    rw [(hwatches w).2.2.2.1] at hcall
    rw [hheld, (hwatches w).2.2.1]
    exact h.owed w hw hcall
  · intro w hop
    rw [hwatch, hheld]
    exact h.closing w hop
  · intro w failure hop
    rw [hwatch, hheld, (hwatches w).2.2.2.1]
    exact h.rejecting w failure hop
  · exact h.once
  · intro w hw
    rw [hwatch] at hw
    rw [(hwatches w).2.2.2.1, (hwatches w).2.2.2.2]
    exact h.answered w hw
  · intro w hw failure hmem
    rw [hwatch] at hw
    rw [(hwatches w).2.2.2.2] at hmem
    rw [hheld]
    exact h.refused w hw failure hmem
  · intro w hw
    rw [hwatch] at hw
    rw [(hwatches w).2.2.2.1]
    exact h.fresh w hw

theorem congr (h : WatchesSound s code) (hwatching : s'.watching = s.watching)
    (hwatches : ∀ w, SameWatch (s.watches w) (s'.watches w))
    (hpeers : ∀ q, SamePeer (s.peers q) (s'.peers q)) (hwatch : s'.nextWatch = s.nextWatch)
    (hpeer : s'.nextPeer = s.nextPeer) : WatchesSound s' code :=
  h.extend hwatching hwatches (fun q _ => hpeers q)
    (fun _ hq hle => absurd (hpeer ▸ hq) (Nat.not_lt.mpr hle)) hwatch hpeer.ge

/-! ### Operations -/

/-- The operations may change, as long as nothing is left undone and nothing new is
promised. -/
theorem operations (h : WatchesSound s code)
    (hviews : ∀ q w, (s.peers q).closed = false → (s.watches w).view = some q →
      ViewEnds code w q → ViewEnds code' w q)
    (hcloses : ∀ w, (s.watches w).settled = .pending → WatchCloses code w → WatchCloses code' w)
    (hclosing : ∀ w, WatchCloses code' w → WatchCloses code w)
    (hrejects : ∀ w failure, Op.rejectWatch w failure ∈ code' ↔ Op.rejectWatch w failure ∈ code)
    (honce : ∀ w, code'.countP (Op.rejects w) = code.countP (Op.rejects w)) :
    WatchesSound s code' where
  held := h.held
  waits := h.waits
  view := h.view
  views q hq w howner := by
    obtain ⟨hw, hview, hopen⟩ := h.views q hq w howner
    exact ⟨hw, hview, fun hclosed => (hopen hclosed).imp_right (hviews q w hclosed hview)⟩
  unsettled w hw hpending := by
    refine (h.unsettled w hw hpending).imp_right (Or.imp_right (Or.imp (hcloses w hpending) ?_))
    exact Exists.imp fun failure => (hrejects w failure).mpr
  owed := h.owed
  closing w hop := h.closing w (hclosing w hop)
  rejecting w failure hop := h.rejecting w failure ((hrejects w failure).mp hop)
  once w := (honce w).trans_le (h.once w)
  answered := h.answered
  refused := h.refused
  fresh := h.fresh

theorem push_endPeer (h : WatchesSound s code) (q : PeerID) (closed : PeerClosed) :
    WatchesSound s (.endPeer q closed :: code) := by
  refine h.operations (fun _ _ _ _ => .mono fun _ => List.mem_cons_of_mem _)
    (fun w _ => ?_) (fun w => ?_) (fun w failure => ?_)
    fun w => List.countP_cons_of_neg Bool.false_ne_true
  · rintro ⟨gone, cause, hop⟩
    exact ⟨gone, cause, List.mem_cons_of_mem _ hop⟩
  · rintro ⟨gone, cause, hop⟩
    exact ⟨gone, cause, (List.mem_cons.mp hop).resolve_left nofun⟩
  · exact ⟨fun hop => (List.mem_cons.mp hop).resolve_left nofun, List.mem_cons_of_mem _⟩

theorem pop_endPeer {closed : PeerClosed} (h : WatchesSound s (.endPeer q closed :: code))
    (hclosed : (s.peers q).closed = true) : WatchesSound s code := by
  refine h.operations (fun q' w hopen _ hends => ?_) (fun w _ => ?_) (fun w => ?_)
    (fun w failure => ?_) fun w => (List.countP_cons_of_neg Bool.false_ne_true).symm
  · rcases hends with ⟨gone, cause, hop⟩ | ⟨x, hop⟩
    · exact Or.inl ⟨gone, cause, (List.mem_cons.mp hop).resolve_left nofun⟩
    · refine Or.inr ⟨x, (List.mem_cons.mp hop).resolve_left fun heq => ?_⟩
      rw [(Op.endPeer.inj heq).1, hclosed] at hopen
      cases hopen
  · rintro ⟨gone, cause, hop⟩
    exact ⟨gone, cause, (List.mem_cons.mp hop).resolve_left nofun⟩
  · rintro ⟨gone, cause, hop⟩
    exact ⟨gone, cause, List.mem_cons_of_mem _ hop⟩
  · exact ⟨List.mem_cons_of_mem _, fun hop => (List.mem_cons.mp hop).resolve_left nofun⟩

/-- Watches leave `watching`, each to be closed or refused. -/
theorem drop (h : WatchesSound s code) {watching : InsertionMap Str WatchID} (ops : List Op)
    (hsub : ∀ id w, watching.get? id = some w → s.watching.get? id = some w)
    (hops : ∀ w, Held s w → watching.get? (s.watches w).id = some w ∨ WatchCloses ops w ∨
      ((s.watches w).view = none ∧ ∃ failure, Op.rejectWatch w failure ∈ ops))
    (hcloses : ∀ w, WatchCloses ops w →
      w < s.nextWatch ∧ watching.get? (s.watches w).id ≠ some w)
    (hrejects : ∀ w failure, Op.rejectWatch w failure ∈ ops → w < s.nextWatch ∧
      watching.get? (s.watches w).id ≠ some w ∧ (s.watches w).call = .thrown failure)
    (honce : ∀ w, (ops ++ code).countP (Op.rejects w) ≤ 1) :
    WatchesSound { s with watching } (ops ++ code) := by
  have hheld : ∀ w, Held { s with watching } w → Held s w := fun w hw => hsub _ w hw
  have hcode : ∀ op ∈ code, op ∈ ops ++ code := fun _ => List.mem_append_right _
  constructor
  · exact fun id w hget => h.held id w (hsub id w hget)
  · exact fun w hw => h.waits w (hheld w hw)
  · intro w hw q hview
    obtain ⟨hq, howner, hsettled, hopen⟩ := h.view w hw q hview
    exact ⟨hq, howner, hsettled, fun hw => hopen (hheld w hw)⟩
  · intro q hq w howner
    obtain ⟨hw, hview, hopen⟩ := h.views q hq w howner
    refine ⟨hw, hview, fun hclosed => ?_⟩
    rcases hopen hclosed with hold | hends
    · rcases hops w hold with hnew | ⟨gone, cause, hop⟩ | ⟨hnone, -⟩
      · exact Or.inl hnew
      · exact Or.inr (Or.inl ⟨gone, cause, List.mem_append_left _ hop⟩)
      · rw [hview] at hnone
        cases hnone
    · exact Or.inr (hends.mono hcode)
  · intro w hw hsettled
    rcases h.unsettled w hw hsettled with hold | hcall | ⟨gone, cause, hop⟩ | ⟨failure, hop⟩
    · rcases hops w hold with hnew | ⟨gone, cause, hop⟩ | ⟨-, failure, hop⟩
      · exact Or.inl hnew
      · exact Or.inr (Or.inr (Or.inl ⟨gone, cause, List.mem_append_left _ hop⟩))
      · exact Or.inr (Or.inr (Or.inr ⟨failure, List.mem_append_left _ hop⟩))
    · exact Or.inr (Or.inl hcall)
    · exact Or.inr (Or.inr (Or.inl ⟨gone, cause, hcode _ hop⟩))
    · exact Or.inr (Or.inr (Or.inr ⟨failure, hcode _ hop⟩))
  · intro w hw hcall
    obtain ⟨hsettled, hnot⟩ := h.owed w hw hcall
    exact ⟨hsettled, fun hw => hnot (hheld w hw)⟩
  · rintro w ⟨gone, cause, hop⟩
    rcases List.mem_append.mp hop with hop | hop
    · exact hcloses w ⟨gone, cause, hop⟩
    · obtain ⟨hw, hnot⟩ := h.closing w ⟨gone, cause, hop⟩
      exact ⟨hw, fun hw => hnot (hheld w hw)⟩
  · intro w failure hop
    rcases List.mem_append.mp hop with hop | hop
    · exact hrejects w failure hop
    · obtain ⟨hw, hnot, hcall⟩ := h.rejecting w failure hop
      exact ⟨hw, fun hw => hnot (hheld w hw), hcall⟩
  · exact honce
  · exact h.answered
  · exact fun w hw failure hmem hnew => h.refused w hw failure hmem (hheld w hnew)
  · exact h.fresh

theorem delete {id : Str} (h : WatchesSound s code) (hget : s.watching.get? id = some w)
    (gone : Failure) (cause : PeerCloseCause) :
    WatchesSound { s with watching := s.watching.delete id }
      (.closeWatch w gone cause :: code) := by
  obtain ⟨hw, hid⟩ := h.held id w hget
  refine h.drop [.closeWatch w gone cause] ?_ ?_ ?_ ?_ ?_
  · intro id' w' hget'
    rw [InsertionMap.get?_delete] at hget'
    split at hget'
    · cases hget'
    · exact hget'
  · intro w' hheld
    by_cases hid' : id = (s.watches w').id
    · have heq : w = w' := by
        rw [Held, ← hid', hget] at hheld
        exact Option.some.inj hheld
      exact Or.inr (Or.inl ⟨gone, cause, heq ▸ List.mem_cons_self⟩)
    · exact Or.inl (by rw [InsertionMap.get?_delete_ne _ hid', hheld])
  · rintro w' ⟨gone', cause', hop⟩
    obtain ⟨rfl, -, -⟩ := Op.closeWatch.inj (List.mem_singleton.mp hop)
    rw [hid, InsertionMap.get?_delete_self]
    exact ⟨hw, (Option.some_ne_none _).symm⟩
  · rintro w' failure hop
    cases List.mem_singleton.mp hop
  · intro w'
    rw [List.singleton_append, List.countP_cons_of_neg Bool.false_ne_true]
    exact h.once w'

/-- `#reset`. -/
theorem clear (h : WatchesSound s code) (gone : Failure) (cause : PeerCloseCause) :
    WatchesSound { s with watching := .empty }
      ((s.watching.entries.map Prod.snd).map (Op.closeWatch · gone cause) ++ code) := by
  have hmem : ∀ op ∈ (s.watching.entries.map Prod.snd).map (Op.closeWatch · gone cause),
      ∃ id w, s.watching.get? id = some w ∧ op = .closeWatch w gone cause := by
    intro op hop
    obtain ⟨w, hw, rfl⟩ := List.mem_map.mp hop
    obtain ⟨⟨id, w⟩, hentry, rfl⟩ := List.mem_map.mp hw
    exact ⟨id, w, InsertionMap.mem_entries.mp hentry, rfl⟩
  refine h.drop _ nofun ?_ ?_ ?_ ?_
  · intro w hheld
    refine Or.inr (Or.inl ⟨gone, cause, List.mem_map_of_mem ?_⟩)
    exact List.mem_map_of_mem (InsertionMap.mem_entries.mpr hheld)
  · rintro w ⟨gone', cause', hop⟩
    obtain ⟨id, w', hget, heq⟩ := hmem _ hop
    obtain ⟨rfl, -, -⟩ := Op.closeWatch.inj heq
    exact ⟨(h.held id w hget).1, nofun⟩
  · intro w failure hop
    obtain ⟨id, w', -, heq⟩ := hmem _ hop
    cases heq
  · intro w
    have hzero : ((s.watching.entries.map Prod.snd).map (Op.closeWatch · gone cause)).countP
        (Op.rejects w) = 0 := by
      rw [List.countP_eq_zero]
      intro op hop
      obtain ⟨id, w', -, rfl⟩ := hmem op hop
      exact Bool.false_ne_true
    rw [List.countP_append, hzero, Nat.zero_add]
    exact h.once w

/-! ### Calls -/

theorem held_modifyWatch {f : Watch → Watch} (hid : (f (t.watches w)).id = (t.watches w).id)
    (j : WatchID) : Held (t.modifyWatch w f).toSession j ↔ Held t.toSession j := by
  have heq : ((t.modifyWatch w f).watches j).id = (t.watches j).id := by
    rw [Streams.watches_modifyWatch]
    split
    · rename_i hj
      rw [hid, hj]
    · rfl
  rw [Held, Held, heq]
  rfl

/-- A call goes on, or comes to its answer, with the operation that brings it. -/
theorem setCall (h : WatchesSound t.toSession code) {f : Watch → Watch}
    (hsame : (f (t.watches w)).id = (t.watches w).id ∧ (f (t.watches w)).view = (t.watches w).view ∧
      (f (t.watches w)).settled = (t.watches w).settled)
    (hcode : code'.Sublist code)
    (hkeep : ∀ op ∈ code, op ∈ code' ∨
      ((f (t.watches w)).call = .settled ∧ ∃ failure, op = .rejectWatch w failure))
    (hwaits : Held t.toSession w → (t.watches w).view = none → (f (t.watches w)).call.isOpen = true)
    (hsettled : (t.watches w).call = .settled → (f (t.watches w)).call = .settled)
    (howed : (f (t.watches w)).call = .owed →
      (t.watches w).settled ≠ .pending ∧ ¬Held t.toSession w)
    (hrejecting : ∀ failure, Op.rejectWatch w failure ∈ code' →
      (f (t.watches w)).call = .thrown failure)
    (hanswered : w < t.nextWatch → (f (t.watches w)).answers.length =
      if (f (t.watches w)).call = .settled then 1 else 0)
    (hrefused : ∀ failure, .error failure ∈ (f (t.watches w)).answers → ¬Held t.toSession w) :
    WatchesSound (t.modifyWatch w f).toSession code' := by
  have hheld := held_modifyWatch (t := t) hsame.1
  have hself : (t.modifyWatch w f).watches w = f (t.watches w) := if_pos rfl
  have hother : ∀ j, j ≠ w → (t.modifyWatch w f).watches j = t.watches j := fun j hj => if_neg hj
  have hfields : ∀ j, ((t.modifyWatch w f).watches j).id = (t.watches j).id ∧
      ((t.modifyWatch w f).watches j).view = (t.watches j).view ∧
      ((t.modifyWatch w f).watches j).settled = (t.watches j).settled := by
    intro j
    by_cases hj : j = w
    · rw [hj, hself]
      exact hsame
    · rw [hother j hj]
      exact ⟨rfl, rfl, rfl⟩
  have hmem : ∀ op ∈ code, (∀ failure, op ≠ .rejectWatch w failure) → op ∈ code' := by
    intro op hop hne
    refine (hkeep op hop).resolve_right ?_
    rintro ⟨-, failure, heq⟩
    exact hne failure heq
  have hcloses : ∀ j, WatchCloses code j → WatchCloses code' j := by
    rintro j ⟨gone, cause, hop⟩
    exact ⟨gone, cause, hmem _ hop nofun⟩
  constructor
  · intro id j hget
    rw [(hfields j).1]
    exact h.held id j hget
  · intro j hj hview
    rw [hheld] at hj
    rw [(hfields j).2.1] at hview
    obtain ⟨hpending, hopen⟩ := h.waits j hj hview
    rw [(hfields j).2.2]
    refine ⟨hpending, ?_⟩
    by_cases hjw : j = w
    · subst hjw
      rw [hself]
      exact hwaits hj hview
    · rw [hother j hjw]
      exact hopen
  · intro j hj q hview
    rw [(hfields j).2.1] at hview
    rw [(hfields j).2.2, hheld]
    exact h.view j hj q hview
  · intro q hq j howner
    obtain ⟨hj, hview, hopen⟩ := h.views q hq j howner
    rw [(hfields j).2.1, hheld]
    refine ⟨hj, hview, fun hclosed => (hopen hclosed).imp_right fun hends => ?_⟩
    exact hends.imp (hcloses j) fun ⟨x, hop⟩ => ⟨x, hmem _ hop nofun⟩
  · intro j hj hpending
    rw [(hfields j).2.2] at hpending
    rw [hheld]
    by_cases hjw : j = w
    · subst hjw
      rw [hself]
      rcases h.unsettled j hj hpending with hold | hcall | hclose | ⟨failure, hop⟩
      · exact Or.inl hold
      · exact Or.inr (Or.inl (hsettled hcall))
      · exact Or.inr (Or.inr (Or.inl (hcloses j hclose)))
      · exact (hkeep _ hop).elim (fun hop => Or.inr (Or.inr (Or.inr ⟨failure, hop⟩)))
          fun hcall => Or.inr (Or.inl hcall.1)
    · rw [hother j hjw]
      refine (h.unsettled j hj hpending).imp_right (Or.imp_right (Or.imp (hcloses j) ?_))
      rintro ⟨failure, hop⟩
      exact ⟨failure, hmem _ hop fun failure' heq => hjw (Op.rejectWatch.inj heq).1⟩
  · intro j hj hcall
    rw [(hfields j).2.2, hheld]
    by_cases hjw : j = w
    · subst hjw
      rw [hself] at hcall
      exact howed hcall
    · rw [hother j hjw] at hcall
      exact h.owed j hj hcall
  · rintro j ⟨gone, cause, hop⟩
    rw [hheld]
    exact h.closing j ⟨gone, cause, hcode.subset hop⟩
  · intro j failure hop
    obtain ⟨hj, hnot, hcall⟩ := h.rejecting j failure (hcode.subset hop)
    rw [hheld]
    refine ⟨hj, hnot, ?_⟩
    by_cases hjw : j = w
    · subst hjw
      rw [hself]
      exact hrejecting failure hop
    · rw [hother j hjw]
      exact hcall
  · exact fun j => (hcode.countP_le).trans (h.once j)
  · intro j hj
    by_cases hjw : j = w
    · subst hjw
      rw [hself]
      exact hanswered hj
    · rw [hother j hjw]
      exact h.answered j hj
  · intro j hj failure hmem'
    rw [hheld]
    by_cases hjw : j = w
    · subst hjw
      rw [hself] at hmem'
      exact hrefused failure hmem'
    · rw [hother j hjw] at hmem'
      exact h.refused j hj failure hmem'
  · intro j hj
    by_cases hjw : j = w
    · subst hjw
      rw [hself]
      exact hsettled (h.fresh j hj)
    · rw [hother j hjw]
      exact h.fresh j hj

/-- A call that has not been answered, and is not about to be, goes on. -/
theorem goOn (h : WatchesSound t.toSession code) {f : Watch → Watch}
    (hsame : SameWatch { t.watches w with call := (f (t.watches w)).call } (f (t.watches w)))
    (hcall : (t.watches w).call.isOpen = true) (hcall' : (f (t.watches w)).call.isOpen = true)
    (hrejecting : ∀ failure, Op.rejectWatch w failure ∉ code) :
    WatchesSound (t.modifyWatch w f).toSession code := by
  have hnot : ∀ call : WatchCall, call.isOpen = true → call ≠ .settled ∧ call ≠ .owed := by
    rintro call hopen
    refine ⟨?_, ?_⟩ <;> rintro rfl <;> cases hopen
  have hanswers : (f (t.watches w)).answers = (t.watches w).answers := hsame.2.2.2.2
  refine h.setCall ⟨hsame.1, hsame.2.1, hsame.2.2.1⟩ (.refl _) (fun op hop => Or.inl hop)
    (fun _ _ => hcall') (fun heq => absurd heq (hnot _ hcall).1)
    (fun heq => absurd heq (hnot _ hcall').2) (fun failure hop => absurd hop (hrejecting failure))
    (fun hw => ?_) fun failure hmem hheld => ?_
  · rw [hanswers, h.answered w hw, if_neg (hnot _ hcall).1, if_neg (hnot _ hcall').1]
  · rw [hanswers] at hmem
    exact h.refused w (h.lt_of_held hheld) failure hmem hheld

/-- A call comes to its answer: a refusal is for a watch that is not held any more. -/
theorem answerWatch (h : WatchesSound t.toSession code) (hcode : code'.Sublist code)
    (hkeep : ∀ op ∈ code, op ∈ code' ∨ ∃ failure, op = .rejectWatch w failure)
    (hnone : ∀ failure, Op.rejectWatch w failure ∉ code')
    (hcall : (t.watches w).call ≠ .settled) {result : Except Failure PeerID}
    (hview : Held t.toSession w → (t.watches w).view ≠ none)
    (hresult : ∀ failure, result = .error failure → ¬Held t.toSession w) :
    WatchesSound (t.answerWatch w result).toSession code' := by
  refine h.setCall ⟨rfl, rfl, rfl⟩ hcode
    (fun op hop => (hkeep op hop).imp_right fun heq => ⟨rfl, heq⟩)
    (fun hheld heq => absurd heq (hview hheld)) (fun _ => rfl) nofun
    (fun failure hop => absurd hop (hnone failure)) (fun hw => ?_) fun failure hmem hheld => ?_
  · show ((t.watches w).answers ++ [result]).length = 1
    rw [List.length_append, h.answered w hw, if_neg hcall]
    rfl
  · rcases List.mem_append.mp hmem with hold | hnew
    · exact h.refused w (h.lt_of_held hheld) failure hold hheld
    · exact hresult failure (List.mem_singleton.mp hnew).symm hheld

/-- The promise of a watch that is not held any more is rejected. -/
theorem rejectSettled (h : WatchesSound t.toSession code) (hnot : ¬Held t.toSession w)
    (failure : Failure) : WatchesSound (t.rejectSettled w failure).toSession code := by
  have hheld : ∀ j, Held (t.rejectSettled w failure).toSession j ↔ Held t.toSession j :=
    held_modifyWatch rfl
  have hself : (t.rejectSettled w failure).watches w =
      { t.watches w with settled := (t.watches w).settled.settle (.rejected failure) } := if_pos rfl
  have hother : ∀ j, j ≠ w → (t.rejectSettled w failure).watches j = t.watches j :=
    fun j hj => if_neg hj
  have hfields : ∀ j, ((t.rejectSettled w failure).watches j).id = (t.watches j).id ∧
      ((t.rejectSettled w failure).watches j).view = (t.watches j).view ∧
      ((t.rejectSettled w failure).watches j).call = (t.watches j).call ∧
      ((t.rejectSettled w failure).watches j).answers = (t.watches j).answers := by
    intro j
    by_cases hj : j = w
    · rw [hj, hself]
      exact ⟨rfl, rfl, rfl, rfl⟩
    · rw [hother j hj]
      exact ⟨rfl, rfl, rfl, rfl⟩
  have hsettled : ((t.rejectSettled w failure).watches w).settled ≠ .pending := by
    rw [hself]
    exact Outcome.settle_ne_pending _ _
  constructor
  · intro id j hget
    rw [(hfields j).1]
    exact h.held id j hget
  · intro j hj hview
    rw [hheld] at hj
    rw [(hfields j).2.1] at hview
    have hjw : j ≠ w := by
      rintro rfl
      exact hnot hj
    rw [hother j hjw]
    exact h.waits j hj hview
  · intro j hj q hview
    rw [(hfields j).2.1] at hview
    obtain ⟨hq, howner, hresolved, hopen⟩ := h.view j hj q hview
    rw [hheld]
    refine ⟨hq, howner, ?_, hopen⟩
    by_cases hjw : j = w
    · subst hjw
      rw [hself]
      show (t.watches j).settled.settle (.rejected failure) = .resolved q
      rw [hresolved]
      rfl
    · rw [hother j hjw]
      exact hresolved
  · intro q hq j howner
    rw [hheld, (hfields j).2.1]
    exact h.views q hq j howner
  · intro j hj hpending
    have hjw : j ≠ w := by
      rintro rfl
      exact hsettled hpending
    rw [hother j hjw] at hpending ⊢
    rw [hheld]
    exact h.unsettled j hj hpending
  · intro j hj hcall
    rw [(hfields j).2.2.1] at hcall
    obtain ⟨hpending, hnot'⟩ := h.owed j hj hcall
    rw [hheld]
    refine ⟨?_, hnot'⟩
    by_cases hjw : j = w
    · exact hjw ▸ hsettled
    · rw [hother j hjw]
      exact hpending
  · intro j hop
    rw [hheld]
    exact h.closing j hop
  · intro j failure' hop
    rw [hheld, (hfields j).2.2.1]
    exact h.rejecting j failure' hop
  · exact h.once
  · intro j hj
    rw [(hfields j).2.2.1, (hfields j).2.2.2]
    exact h.answered j hj
  · intro j hj failure' hmem
    rw [(hfields j).2.2.2] at hmem
    rw [hheld]
    exact h.refused j hj failure' hmem
  · intro j hj
    rw [(hfields j).2.2.1]
    exact h.fresh j hj

/-! ### Closing -/

theorem closeView {gone : Failure} {cause : PeerCloseCause}
    (h : WatchesSound s (.closeWatch w gone cause :: code)) (hview : (s.watches w).view = some q)
    (closed : PeerClosed) : WatchesSound s (.endPeer q closed :: code) := by
  have hw := (h.closing w ⟨gone, cause, List.mem_cons_self⟩).1
  refine h.operations (fun q' j _ hv hends => ?_) (fun j hpending => ?_) (fun j => ?_)
    (fun j failure => ?_) (fun j => ?_)
  · rcases hends with ⟨g, x, hop⟩ | ⟨x, hop⟩
    · rcases List.mem_cons.mp hop with heq | hop
      · obtain ⟨rfl, -, -⟩ := Op.closeWatch.inj heq
        rw [hview] at hv
        cases hv
        exact Or.inr ⟨closed, List.mem_cons_self⟩
      · exact Or.inl ⟨g, x, List.mem_cons_of_mem _ hop⟩
    · exact Or.inr ⟨x, List.mem_cons_of_mem _ ((List.mem_cons.mp hop).resolve_left nofun)⟩
  · rintro ⟨g, x, hop⟩
    refine ⟨g, x, List.mem_cons_of_mem _ ((List.mem_cons.mp hop).resolve_left fun heq => ?_)⟩
    obtain ⟨rfl, -, -⟩ := Op.closeWatch.inj heq
    rw [(h.view j hw q hview).2.2.1] at hpending
    cases hpending
  · rintro ⟨g, x, hop⟩
    exact ⟨g, x, List.mem_cons_of_mem _ ((List.mem_cons.mp hop).resolve_left nofun)⟩
  · exact ⟨fun hop => List.mem_cons_of_mem _ ((List.mem_cons.mp hop).resolve_left nofun),
      fun hop => List.mem_cons_of_mem _ ((List.mem_cons.mp hop).resolve_left nofun)⟩
  · rw [List.countP_cons_of_neg Bool.false_ne_true, List.countP_cons_of_neg Bool.false_ne_true]

/-- A watch without a view is closed: its promise is rejected. -/
theorem closeWaiting {gone : Failure} {cause : PeerCloseCause}
    (h : WatchesSound t.toSession (.closeWatch w gone cause :: code))
    (hview : (t.watches w).view = none) (failure : Failure) :
    WatchesSound (t.rejectSettled w failure).toSession code := by
  have hnot := (h.closing w ⟨gone, cause, List.mem_cons_self⟩).2
  have hself : (t.rejectSettled w failure).watches w =
      { t.watches w with settled := (t.watches w).settled.settle (.rejected failure) } := if_pos rfl
  refine (h.rejectSettled hnot failure).operations (fun q' j _ hv hends => ?_)
    (fun j hpending => ?_) (fun j => ?_) (fun j failure => ?_)
    fun j => (List.countP_cons_of_neg Bool.false_ne_true).symm
  · refine hends.imp ?_ ?_
    · rintro ⟨g, x, hop⟩
      refine ⟨g, x, (List.mem_cons.mp hop).resolve_left fun heq => ?_⟩
      obtain ⟨rfl, -, -⟩ := Op.closeWatch.inj heq
      rw [hself] at hv
      cases hview.symm.trans hv
    · rintro ⟨x, hop⟩
      exact ⟨x, (List.mem_cons.mp hop).resolve_left nofun⟩
  · rintro ⟨g, x, hop⟩
    refine ⟨g, x, (List.mem_cons.mp hop).resolve_left fun heq => ?_⟩
    obtain ⟨rfl, -, -⟩ := Op.closeWatch.inj heq
    rw [hself] at hpending
    exact Outcome.settle_ne_pending _ _ hpending
  · rintro ⟨g, x, hop⟩
    exact ⟨g, x, List.mem_cons_of_mem _ hop⟩
  · exact ⟨List.mem_cons_of_mem _, fun hop => (List.mem_cons.mp hop).resolve_left nofun⟩

theorem closeWatch {gone : Failure} {cause : PeerCloseCause}
    (h : WatchesSound t.toSession (.closeWatch w gone cause :: code)) :
    WatchesSound (t.closeWatch w gone cause).1.toSession
      ((t.closeWatch w gone cause).2 ++ code) := by
  rw [Streams.closeWatch]
  split
  · rename_i q hview
    exact h.closeView hview _
  · rename_i hview
    exact h.closeWaiting hview gone

/-- `#end`. -/
theorem endWatch (h : WatchesSound t.toSession code) (id : Str) (info : Option StreamInfo)
    (cause : EndCause) (reason : Nat) :
    WatchesSound (t.endWatch id info cause reason).1.toSession
      ((t.endWatch id info cause reason).2.filter Op.ofWatches ++ code) := by
  rw [Streams.endWatch]
  split
  · exact h
  rename_i w hget
  have hdelete := h.delete hget .streamEnded .stopped
  dsimp only
  split
  · rename_i q hview
    exact hdelete.closeView hview _
  · rename_i hview
    exact closeWaiting (t := { t with watching := t.watching.delete id }) hdelete hview .streamEnded

theorem closePeer (h : WatchesSound s code)
    (hwatching : ∀ id w, s'.watching.get? id = some w ↔
      s.watching.get? id = some w ∧ (s.watches w).view ≠ some q)
    (hpeers : ∀ j, (s'.peers j).owner = (s.peers j).owner ∧
      (s'.peers j).closed = if j = q then true else (s.peers j).closed)
    (hwatches : s'.watches = s.watches) (hwatch : s'.nextWatch = s.nextWatch)
    (hpeer : s'.nextPeer = s.nextPeer) : WatchesSound s' code := by
  have hheld : ∀ w, Held s' w ↔ Held s w ∧ (s.watches w).view ≠ some q := by
    intro w
    rw [Held, hwatching, hwatches]
    rfl
  constructor
  · intro id w hget
    rw [hwatch, hwatches]
    exact h.held id w ((hwatching id w).mp hget).1
  · intro w hw hview
    rw [hwatches] at hview ⊢
    exact h.waits w ((hheld w).mp hw).1 hview
  · intro w hw q' hview
    rw [hwatch] at hw
    rw [hwatches] at hview ⊢
    obtain ⟨hq, howner, hsettled, hopen⟩ := h.view w hw q' hview
    rw [hpeer, (hpeers q').1, (hpeers q').2]
    refine ⟨hq, howner, hsettled, fun hnew => ?_⟩
    obtain ⟨hold, hne⟩ := (hheld w).mp hnew
    rw [if_neg fun heq : q' = q => hne (heq ▸ hview)]
    exact hopen hold
  · intro q' hq w howner
    rw [hpeer] at hq
    rw [(hpeers q').1] at howner
    obtain ⟨hw, hview, hopen⟩ := h.views q' hq w howner
    rw [hwatch, hwatches, (hpeers q').2]
    refine ⟨hw, hview, fun hclosed => ?_⟩
    split at hclosed
    · cases hclosed
    rename_i hne
    refine (hopen hclosed).imp_left fun hold => (hheld w).mpr ⟨hold, fun heq => hne ?_⟩
    exact Option.some.inj (hview.symm.trans heq)
  · intro w hw hpending
    rw [hwatch] at hw
    rw [hwatches] at hpending ⊢
    refine (h.unsettled w hw hpending).imp_left fun hold => (hheld w).mpr ⟨hold, fun hview => ?_⟩
    rw [(h.view w hw q hview).2.2.1] at hpending
    cases hpending
  · intro w hw hcall
    rw [hwatch] at hw
    rw [hwatches] at hcall ⊢
    obtain ⟨hsettled, hnot⟩ := h.owed w hw hcall
    exact ⟨hsettled, fun hnew => hnot ((hheld w).mp hnew).1⟩
  · intro w hop
    rw [hwatch]
    obtain ⟨hw, hnot⟩ := h.closing w hop
    exact ⟨hw, fun hnew => hnot ((hheld w).mp hnew).1⟩
  · intro w failure hop
    rw [hwatch, hwatches]
    obtain ⟨hw, hnot, hcall⟩ := h.rejecting w failure hop
    exact ⟨hw, fun hnew => hnot ((hheld w).mp hnew).1, hcall⟩
  · exact h.once
  · intro w hw
    rw [hwatch] at hw
    rw [hwatches]
    exact h.answered w hw
  · intro w hw failure hmem hnew
    rw [hwatch] at hw
    rw [hwatches] at hmem
    exact h.refused w hw failure hmem ((hheld w).mp hnew).1
  · intro w hw
    rw [hwatch] at hw
    rw [hwatches]
    exact h.fresh w hw

theorem endPeer {closed : PeerClosed} (h : WatchesSound t.toSession (.endPeer q closed :: code)) :
    WatchesSound (t.endPeer q closed).1.toSession code := by
  cases hclosed : (t.peers q).closed with
  | true =>
    rw [Streams.endPeer_of_closed hclosed]
    exact h.pop_endPeer hclosed
  | false =>
    have hrest := Streams.rest_endPeer t q closed
    have hpeers : ∀ j, ((t.endPeer q closed).1.peers j).owner = (t.peers j).owner ∧
        ((t.endPeer q closed).1.peers j).closed = if j = q then true else (t.peers j).closed := by
      intro j
      rw [Streams.peers_endPeer hclosed]
      split
      · rename_i hj
        exact ⟨hj ▸ rfl, rfl⟩
      · exact ⟨rfl, rfl⟩
    have howner : ∀ id w, t.watching.get? id = some w → (t.watches w).view = some q →
        (t.peers q).owner = .view w ∧ (t.watches w).id = id := by
      intro id w hget hview
      obtain ⟨hw, hid⟩ := h.held id w hget
      exact ⟨(h.view w hw q hview).2.1, hid⟩
    have hwatching : ∀ id w, (t.endPeer q closed).1.watching.get? id = some w ↔
        t.watching.get? id = some w ∧ (t.watches w).view ≠ some q := by
      intro id w
      rw [Streams.watching_endPeer hclosed]
      split
      · rename_i p howner'
        refine ⟨fun hget => ⟨hget, fun hview => ?_⟩, And.left⟩
        rw [(howner id w hget hview).1] at howner'
        cases howner'
      rename_i w₀ howner'
      have heq : ∀ id w, t.watching.get? id = some w → (t.watches w).view = some q → w = w₀ := by
        intro id w hget hview
        have hview' := (howner id w hget hview).1
        rw [howner'] at hview'
        exact (Owner.view.inj hview').symm
      split
      · rename_i hbind
        obtain ⟨w₁, hget₁, hview₁⟩ := Option.bind_eq_some_iff.mp hbind
        obtain rfl := heq _ w₁ hget₁ hview₁
        rw [InsertionMap.get?_delete]
        split
        · rename_i hid
          refine ⟨(Option.some_ne_none _).symm.elim, fun hget => absurd ?_ hget.2⟩
          rw [← hid, hget₁] at hget
          rw [← Option.some.inj hget.1]
          exact hview₁
        · rename_i hid
          refine ⟨fun hget => ⟨hget, fun hview => hid ?_⟩, And.left⟩
          rw [← heq id w hget hview]
          exact (howner id w hget hview).2
      · rename_i hbind
        refine ⟨fun hget => ⟨hget, fun hview => hbind ?_⟩, And.left⟩
        have hid := (howner id w hget hview).2
        rw [← heq id w hget hview, hid, hget]
        exact hview
    have hclose : WatchesSound (t.endPeer q closed).1.toSession (.endPeer q closed :: code) :=
      h.closePeer hwatching hpeers hrest.watches hrest.nextWatch hrest.nextPeer
    refine hclose.pop_endPeer ?_
    rw [(hpeers q).2, if_pos rfl]

/-! ### New peers and watches -/

/-- The publisher lets the client in: the view is the answer. -/
theorem openView (h : WatchesSound t.toSession code) (hheld : Held t.toSession w)
    (hnone : (t.watches w).view = none) : WatchesSound (t.openView w).toSession code := by
  have hw := h.lt_of_held hheld
  obtain ⟨hpending, hopen⟩ := h.waits w hheld hnone
  have hself : (t.openView w).watches w =
      { t.watches w with
        view := some t.nextPeer, early := []
        settled := (t.watches w).settled.settle (.resolved t.nextPeer) } := if_pos rfl
  have hother : ∀ j, j ≠ w → (t.openView w).watches j = t.watches j := fun j hj => if_neg hj
  have hpeer : (t.openView w).peers t.nextPeer =
      { streamId := (t.watches w).id, clientId := (t.watches w).streamer, owner := .view w
        emitted := (t.watches w).early.map PeerEvent.signal } := if_pos rfl
  have hpeers : ∀ q, q ≠ t.nextPeer → (t.openView w).peers q = t.peers q := fun q hq => if_neg hq
  have hfields : ∀ j, ((t.openView w).watches j).id = (t.watches j).id ∧
      ((t.openView w).watches j).call = (t.watches j).call ∧
      ((t.openView w).watches j).answers = (t.watches j).answers := by
    intro j
    by_cases hj : j = w
    · rw [hj, hself]
      exact ⟨rfl, rfl, rfl⟩
    · rw [hother j hj]
      exact ⟨rfl, rfl, rfl⟩
  have hheld' : ∀ j, Held (t.openView w).toSession j ↔ Held t.toSession j := by
    intro j
    rw [Held, Held, (hfields j).1]
    rfl
  constructor
  · intro id j hget
    rw [(hfields j).1]
    exact h.held id j hget
  · intro j hj hview
    rw [hheld'] at hj
    have hjw : j ≠ w := by
      rintro rfl
      rw [hself] at hview
      cases hview
    rw [hother j hjw] at hview ⊢
    exact h.waits j hj hview
  · intro j hj q hview
    by_cases hjw : j = w
    · subst hjw
      rw [hself] at hview ⊢
      cases hview
      rw [hpeer, hpending]
      exact ⟨Nat.lt_succ_self _, rfl, rfl, fun _ => rfl⟩
    · rw [hother j hjw] at hview ⊢
      obtain ⟨hq, hrest⟩ := h.view j hj q hview
      rw [hheld', hpeers q (Nat.ne_of_lt hq)]
      exact ⟨Nat.lt_succ_of_lt hq, hrest⟩
  · intro q hq j howner
    by_cases hnew : q = t.nextPeer
    · subst hnew
      rw [hpeer] at howner
      obtain rfl := Owner.view.inj howner
      rw [hself]
      exact ⟨hw, rfl, fun _ => Or.inl ((hheld' w).mpr hheld)⟩
    · rw [hpeers q hnew] at howner ⊢
      obtain ⟨hj, hview, hends⟩ :=
        h.views q (Nat.lt_of_le_of_ne (Nat.le_of_lt_succ hq) hnew) j howner
      have hjw : j ≠ w := by
        rintro rfl
        rw [hnone] at hview
        cases hview
      rw [hother j hjw, hheld']
      exact ⟨hj, hview, hends⟩
  · intro j hj hsettled
    have hjw : j ≠ w := by
      rintro rfl
      rw [hself, hpending] at hsettled
      cases hsettled
    rw [hother j hjw] at hsettled ⊢
    rw [hheld']
    exact h.unsettled j hj hsettled
  · intro j hj hcall
    rw [(hfields j).2.1] at hcall
    have hjw : j ≠ w := by
      rintro rfl
      rw [hcall] at hopen
      cases hopen
    rw [hother j hjw, hheld']
    exact h.owed j hj hcall
  · intro j hop
    rw [hheld']
    exact h.closing j hop
  · intro j failure hop
    rw [hheld', (hfields j).2.1]
    exact h.rejecting j failure hop
  · exact h.once
  · intro j hj
    rw [(hfields j).2.1, (hfields j).2.2]
    exact h.answered j hj
  · intro j hj failure hmem
    rw [(hfields j).2.2] at hmem
    rw [hheld']
    exact h.refused j hj failure hmem
  · intro j hj
    rw [(hfields j).2.1]
    exact h.fresh j hj

theorem newWatch {watching : InsertionMap Str WatchID} {watches : Nat → Watch}
    (h : WatchesSound s code) (watch : Watch) (hfree : s.watching.get? watch.id = none)
    (hset : watching = s.watching.set watch.id s.nextWatch)
    (hnew : watches s.nextWatch = watch) (hold : ∀ j, j ≠ s.nextWatch → watches j = s.watches j)
    (hview : watch.view = none) (hpending : watch.settled = .pending)
    (hcall : watch.call.isOpen = true) (hanswers : watch.answers = []) :
    WatchesSound { s with watching, watches, nextWatch := s.nextWatch + 1 } code := by
  have hother : ∀ w < s.nextWatch, watches w = s.watches w := fun w hw => hold w (Nat.ne_of_lt hw)
  have hsettled : watch.call ≠ .settled := by
    intro heq
    rw [heq] at hcall
    cases hcall
  have hheld : ∀ w < s.nextWatch,
      Held { s with watching, watches, nextWatch := s.nextWatch + 1 } w ↔ Held s w := by
    intro w hw
    show watching.get? (watches w).id = some w ↔ _
    rw [hother w hw, hset, InsertionMap.get?_set, Held]
    split
    · rename_i hid
      rw [← hid, hfree]
      exact ⟨fun heq => absurd (Option.some.inj heq) (Nat.ne_of_gt hw),
        (Option.some_ne_none _).symm.elim⟩
    · exact Iff.rfl
  have hnewest : ∀ w < s.nextWatch + 1, w ≠ s.nextWatch → w < s.nextWatch := fun w hw hne =>
    Nat.lt_of_le_of_ne (Nat.le_of_lt_succ hw) hne
  have hlt : ∀ w, Held { s with watching, watches, nextWatch := s.nextWatch + 1 } w →
      w ≠ s.nextWatch → w < s.nextWatch := by
    intro w hw hne
    change watching.get? (watches w).id = some w at hw
    rw [hset, InsertionMap.get?_set] at hw
    split at hw
    · exact absurd (Option.some.inj hw).symm hne
    · exact (h.held _ w hw).1
  constructor
  · intro id w hget
    change watching.get? id = some w at hget
    show w < s.nextWatch + 1 ∧ (watches w).id = id
    rw [hset, InsertionMap.get?_set] at hget
    split at hget
    · rename_i hid
      cases hget
      rw [hnew]
      exact ⟨Nat.lt_succ_self _, hid⟩
    · obtain ⟨hw, hid⟩ := h.held id w hget
      rw [hother w hw]
      exact ⟨Nat.lt_succ_of_lt hw, hid⟩
  · intro w hw hnone
    change (watches w).view = none at hnone
    show (watches w).settled = .pending ∧ (watches w).call.isOpen = true
    by_cases hne : w = s.nextWatch
    · rw [hne, hnew]
      exact ⟨hpending, hcall⟩
    · have hlt' := hlt w hw hne
      rw [hother w hlt'] at hnone ⊢
      exact h.waits w ((hheld w hlt').mp hw) hnone
  · intro w hw q hv
    change (watches w).view = some q at hv
    show _ ∧ _ ∧ (watches w).settled = .resolved q ∧ _
    by_cases hne : w = s.nextWatch
    · rw [hne, hnew, hview] at hv
      cases hv
    · have hlt' := hnewest w hw hne
      rw [hother w hlt'] at hv ⊢
      rw [hheld w hlt']
      exact h.view w hlt' q hv
  · intro q hq w howner
    obtain ⟨hw, hv, hopen⟩ := h.views q hq w howner
    show w < s.nextWatch + 1 ∧ (watches w).view = some q ∧ _
    rw [hother w hw, hheld w hw]
    exact ⟨Nat.lt_succ_of_lt hw, hv, hopen⟩
  · intro w hw hp
    change (watches w).settled = .pending at hp
    show _ ∨ (watches w).call = .settled ∨ _
    by_cases hne : w = s.nextWatch
    · refine Or.inl ?_
      show watching.get? (watches w).id = some w
      rw [hne, hnew, hset, InsertionMap.get?_set_self]
    · have hlt' := hnewest w hw hne
      rw [hother w hlt'] at hp ⊢
      rw [hheld w hlt']
      exact h.unsettled w hlt' hp
  · intro w hw howed
    change (watches w).call = .owed at howed
    show (watches w).settled ≠ .pending ∧ _
    by_cases hne : w = s.nextWatch
    · rw [hne, hnew] at howed
      rw [howed] at hcall
      cases hcall
    · have hlt' := hnewest w hw hne
      rw [hother w hlt'] at howed ⊢
      rw [hheld w hlt']
      exact h.owed w hlt' howed
  · intro w hop
    obtain ⟨hw, hnot⟩ := h.closing w hop
    rw [hheld w hw]
    exact ⟨Nat.lt_succ_of_lt hw, hnot⟩
  · intro w failure hop
    obtain ⟨hw, hnot, hthrown⟩ := h.rejecting w failure hop
    show _ ∧ _ ∧ (watches w).call = .thrown failure
    rw [hheld w hw, hother w hw]
    exact ⟨Nat.lt_succ_of_lt hw, hnot, hthrown⟩
  · exact h.once
  · intro w hw
    show (watches w).answers.length = if (watches w).call = .settled then 1 else 0
    by_cases hne : w = s.nextWatch
    · rw [hne, hnew, hanswers, if_neg hsettled]
      rfl
    · have hlt' := hnewest w hw hne
      rw [hother w hlt']
      exact h.answered w hlt'
  · intro w hw failure hmem
    change .error failure ∈ (watches w).answers at hmem
    by_cases hne : w = s.nextWatch
    · rw [hne, hnew, hanswers] at hmem
      cases hmem
    · have hlt' := hnewest w hw hne
      rw [hother w hlt'] at hmem
      rw [hheld w hlt']
      exact h.refused w hlt' failure hmem
  · intro w hw
    have hle : s.nextWatch < w := hw
    show (watches w).call = .settled
    rw [hold w (Nat.ne_of_gt hle)]
    exact h.fresh w (Nat.le_of_lt hle)

end WatchesSound

end Teamspeak.Stream
