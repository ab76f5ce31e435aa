import Teamspeak.Stream.Sound.Calm
import Teamspeak.Stream.Sound.Kept

/-!
# How the Streams are torn down

* `Later s s'`: what is gone from the maps stays gone, and what has ended stays so.
* `Setups s code`: the `setupstream` commands that are out; of a disposed Streams none is let
  go on.
* `orderly`: `dispose` finds no stream that is being adopted, and `accept` goes on with a
  request that is still pending.
* `teardown`: in an orderly run each object ends once, and once the Streams are disposed or
  the connection has ended, all of them have.
-/

namespace Teamspeak.Stream

/-! ### What is gone stays gone -/

structure Later (s s' : Session) : Prop where
  nextPub : s.nextPub ≤ s'.nextPub
  nextPeer : s.nextPeer ≤ s'.nextPeer
  nextRequest : s.nextRequest ≤ s'.nextRequest
  nextWatch : s.nextWatch ≤ s'.nextWatch
  published : ∀ id p, s'.published.get? id = some p →
    s.published.get? id = some p ∨ s.nextPub ≤ p
  watching : ∀ id w, s'.watching.get? id = some w → s.watching.get? id = some w ∨ s.nextWatch ≤ w
  peers : ∀ q < s.nextPeer, (s'.peers q).owner = (s.peers q).owner ∧
    ((s.peers q).closed = true → (s'.peers q).closed = true)
  requests : ∀ r < s.nextRequest, (s'.requests r).stream = (s.requests r).stream ∧
    ((s.requests r).state ≠ .pending → (s'.requests r).state ≠ .pending)

namespace Later

variable {s s' s'' : Session} {t : Streams} {turn : Turn}

theorem refl (s : Session) : Later s s :=
  ⟨Nat.le_refl _, Nat.le_refl _, Nat.le_refl _, Nat.le_refl _, fun _ _ => Or.inl,
    fun _ _ => Or.inl, fun _ _ => ⟨rfl, id⟩, fun _ _ => ⟨rfl, id⟩⟩

theorem of_eq (h : s' = s) : Later s s' := h ▸ refl s

theorem trans (h : Later s s') (h' : Later s' s'') : Later s s'' where
  nextPub := h.nextPub.trans h'.nextPub
  nextPeer := h.nextPeer.trans h'.nextPeer
  nextRequest := h.nextRequest.trans h'.nextRequest
  nextWatch := h.nextWatch.trans h'.nextWatch
  published id p hget :=
    (h'.published id p hget).elim (h.published id p) fun hp => Or.inr (h.nextPub.trans hp)
  watching id w hget :=
    (h'.watching id w hget).elim (h.watching id w) fun hw => Or.inr (h.nextWatch.trans hw)
  peers q hq := by
    obtain ⟨howner, hclosed⟩ := h.peers q hq
    obtain ⟨howner', hclosed'⟩ := h'.peers q (hq.trans_le h.nextPeer)
    exact ⟨howner'.trans howner, fun hc => hclosed' (hclosed hc)⟩
  requests r hr := by
    obtain ⟨hstream, hstate⟩ := h.requests r hr
    obtain ⟨hstream', hstate'⟩ := h'.requests r (hr.trans_le h.nextRequest)
    exact ⟨hstream'.trans hstream, fun hs => hstate' (hstate hs)⟩

theorem of_calm (h : Calm t turn) : Later t.toSession turn.1.toSession where
  nextPub := h.nextPub.ge
  nextPeer := h.nextPeer
  nextRequest := h.nextRequest
  nextWatch := h.nextWatch.ge
  published id p hget := Or.inl (h.published id p hget)
  watching id w hget := Or.inl (h.watching id w hget)
  peers := h.peers
  requests := h.requests

theorem publish (t : Streams) : Later t.toSession t.publish.toSession := by
  rw [Streams.publish]
  split
  · exact refl _
  · exact refl _

/-- A watch that is made has a number of its own. -/
theorem watch (t : Streams) (target : Str ⊕ StreamInfo) (aborted : Bool) :
    Later t.toSession (t.watch target aborted).toSession := by
  rw [Streams.watch]
  dsimp only
  split
  · exact refl _
  split
  · exact refl _
  · exact
      { refl t.toSession with
        nextWatch := Nat.le_succ _
        watching := fun id w hget => by
          change (t.watching.set _ t.nextWatch).get? id = some w at hget
          rw [InsertionMap.get?_set] at hget
          split at hget
          · exact Or.inr (Option.some.inj hget).le
          · exact Or.inl hget }

theorem reset (t : Streams) (gone : Failure) (ended : EndCause) (cause : PeerCloseCause) :
    Later t.toSession (t.reset gone ended cause).1.toSession := by
  rw [Sound.session_reset]
  exact { refl t.toSession with published := nofun, watching := nofun }

theorem dispose (t : Streams) : Later t.toSession t.dispose.1.toSession := by
  rw [Streams.dispose]
  split
  · exact refl _
  · exact reset { t with disposed := true } _ _ _

/-- A stream that is made has a number of its own. -/
theorem adopted (t : Streams) (k : CallID) (info : StreamInfo) :
    Later t.toSession (t.adopted k info).toSession := by
  unfold Streams.adopted
  dsimp only
  split
  · exact refl _
  · exact
      { refl t.toSession with
        nextPub := Nat.le_succ _
        published := fun id p hget => by
          change (t.published.set _ t.nextPub).get? id = some p at hget
          rw [InsertionMap.get?_set] at hget
          split at hget
          · exact Or.inr (Option.some.inj hget).le
          · exact Or.inl hget }

theorem setupInfo (t : Streams) (k : CallID) (info : Option StreamInfo) :
    Later t.toSession (t.setupInfo k info).1.toSession := by
  cases info with
  | none =>
    rw [Streams.setupInfo]
    split
    · exact refl _
    · exact refl _
  | some info =>
    have hknown : (t.emit (.announced k info.id t.connected)).Known info.id :=
      Or.inr (Or.inl ⟨k, t.connected, List.mem_append_right _ List.mem_cons_self⟩)
    rw [Streams.setupInfo]
    dsimp only
    split
    · split
      · exact refl _
      · exact refl _
    split
    · let noted : Streams := { t.emit (.announced k info.id t.connected) with
        orphans := remember maxOrphans info.id t.orphans }
      have hended : Calm noted (noted.endStream info.id .stopped 0) :=
        (Calm.refl noted).endStream info.id 0 fun _ => hknown
      have hlater := of_calm hended
      exact hlater
    split
    · exact refl _
    · have hlearnt : ∀ noted : Streams, noted.toSession = t.toSession →
          Later t.toSession (noted.learn info).1.toSession :=
        fun noted hsame => hsame ▸ of_calm (.learn noted info)
      exact hlearnt _ rfl

theorem setup (t : Streams) (k : CallID) (result : Except Failure (List Params)) :
    Later t.toSession (t.setup k result).1.toSession := by
  rw [Streams.setup]
  split
  · exact refl _
  cases result with
  | error failure => exact refl _
  | ok rows =>
    exact setupInfo (t.modifyAttempt k fun attempt => { attempt with sending := false }) k _

theorem call (t : Streams) (k : Call) : Later t.toSession (Streams.call k t).1.toSession := by
  by_cases hk : Calm.ofCall k = true
  · cases k with
    | publish => exact publish t
    | giveUp k failure =>
      rw [Streams.call]
      split
      · exact refl _
      · exact refl _
    | watch target aborted => exact watch t target aborted
    | dispose => exact dispose t
    | _ => cases hk
  · exact of_calm (.call t (Bool.eq_false_iff.mpr hk))

theorem event (t : Streams) (e : Event) : Later t.toSession (Streams.event e t).1.toSession := by
  by_cases he : Calm.ofEvent e = true
  · cases e with
    | setup k result => exact setup t k result
    | heard k => exact refl _
    | noted k =>
      change Later _ (t.noted k).toSession
      rw [Streams.noted]
      split
      · exact refl _
      · exact refl _
    | disconnected =>
      change Later _ (t.subscribed t.disconnected).1.toSession
      rw [Streams.subscribed]
      split
      · exact refl _
      · exact reset t _ _ _
    | _ => cases he
  · exact of_calm (.event t (Bool.eq_false_iff.mpr he))

theorem exec (t : Streams) (op : Op) : Later t.toSession (Streams.exec op t).1.toSession := by
  by_cases hop : op.isSetup = true
  · cases op with
    | adopted k info => exact adopted t k info
    | orphaned k id => exact refl _
    | _ => cases hop
  · exact of_calm (.exec t (Bool.eq_false_iff.mpr hop))

theorem step (c : Config Streams Op) (l : Label Call Event) :
    Later c.state.toSession (program.step c l).state.toSession := by
  obtain ⟨t, code⟩ := c
  cases l with
  | event e =>
    rw [Program.step]
    split
    · exact event t e
    · exact refl _
  | call k =>
    rw [Program.step]
    split
    · exact call t k
    · exact refl _
  | go =>
    cases code with
    | nil => exact refl _
    | cons op rest => exact exec t op

theorem run (c : Config Streams Op) (ls : List (Label Call Event)) :
    Later c.state.toSession (run program.step c ls).state.toSession :=
  run_invariant (I := fun c' => Later c.state.toSession c'.state.toSession)
    (fun c' l h => h.trans (step c' l)) ls (refl _)

end Later

/-! ### The `setupstream` commands that are out -/

structure Setups (s : Streams) (code : List Op) : Prop where
  waiting : ∀ k, (s.attempts k).sending = true →
    k < s.nextCall ∧ ((s.attempts k).reset = true ∨ k ∈ s.publishing)
  adopting : ∀ k info, Op.adopted k info ∈ code →
    k < s.nextCall ∧ (s.attempts k).sending = false ∧ s.disposed = false
  orphaning : ∀ k id, Op.orphaned k id ∈ code → k < s.nextCall ∧ (s.attempts k).sending = false
  emptied : s.disposed = true → (∀ id, s.published.get? id = none) ∧
    (∀ id, s.watching.get? id = none) ∧
    ∀ k, (s.attempts k).sending = true → (s.attempts k).reset = true

namespace Setups

variable {s : Streams} {turn : Turn} {code : List Op}

theorem calm (h : Setups s code) (hcalm : Calm s turn) : Setups turn.1 (turn.2 ++ code) where
  waiting k hsending := by
    rw [hcalm.attempts] at hsending ⊢
    rw [hcalm.nextCall, hcalm.publishing]
    exact h.waiting k hsending
  adopting k info hop := by
    rw [hcalm.attempts, hcalm.nextCall, hcalm.disposed]
    refine h.adopting k info ((List.mem_append.mp hop).resolve_left fun hmem => ?_)
    cases hcalm.ops _ hmem
  orphaning k id hop := by
    rw [hcalm.attempts, hcalm.nextCall]
    refine h.orphaning k id ((List.mem_append.mp hop).resolve_left fun hmem => ?_)
    cases hcalm.ops _ hmem
  emptied hdisposed := by
    obtain ⟨hpublished, hwatching, hreset⟩ := h.emptied (hcalm.disposed ▸ hdisposed)
    refine ⟨fun id => ?_, fun id => ?_, fun k hsending => ?_⟩
    · rw [Option.eq_none_iff_forall_ne_some]
      intro p hget
      cases (hpublished id).symm.trans (hcalm.published id p hget)
    · rw [Option.eq_none_iff_forall_ne_some]
      intro w hget
      cases (hwatching id).symm.trans (hcalm.watching id w hget)
    · rw [hcalm.attempts] at hsending ⊢
      exact hreset k hsending

theorem still (h : Setups s code) {t : Streams} (hcalm : Calm s (t, [])) : Setups t code :=
  h.calm hcalm

theorem tail {op : Op} (h : Setups s (op :: code)) : Setups s code :=
  ⟨h.waiting, fun k info hop => h.adopting k info (List.mem_cons_of_mem _ hop),
    fun k id hop => h.orphaning k id (List.mem_cons_of_mem _ hop), h.emptied⟩

/-- Whether a call waits or is reset stays as it is. -/
theorem modifyAttempt (h : Setups s code) (k : CallID) {f : Attempt → Attempt}
    (hsending : (f (s.attempts k)).sending = (s.attempts k).sending)
    (hreset : (f (s.attempts k)).reset = (s.attempts k).reset) :
    Setups (s.modifyAttempt k f) code := by
  have hsame : ∀ j, ((s.modifyAttempt k f).attempts j).sending = (s.attempts j).sending ∧
      ((s.modifyAttempt k f).attempts j).reset = (s.attempts j).reset := by
    intro j
    rw [Streams.attempts_modifyAttempt]
    split
    · rename_i heq
      rw [heq]
      exact ⟨hsending, hreset⟩
    · exact ⟨rfl, rfl⟩
  refine ⟨fun j hj => ?_, fun j info hop => ?_, fun j id hop => ?_, fun hdisposed => ?_⟩
  · rw [(hsame j).1] at hj
    rw [(hsame j).2]
    exact h.waiting j hj
  · rw [(hsame j).1]
    exact h.adopting j info hop
  · rw [(hsame j).1]
    exact h.orphaning j id hop
  · obtain ⟨hpublished, hwatching, hall⟩ := h.emptied hdisposed
    refine ⟨hpublished, hwatching, fun j hj => ?_⟩
    rw [(hsame j).1] at hj
    rw [(hsame j).2]
    exact hall j hj

theorem giveUp (h : Setups s code) (k : CallID) (failure : Failure) :
    Setups (s.giveUp k failure) code := by
  rw [Streams.giveUp]
  exact h.modifyAttempt k rfl rfl

theorem heard (h : Setups s code) (k : CallID) : Setups (s.heard k) code := by
  rw [Streams.heard]
  exact h.modifyAttempt k rfl rfl

theorem noted (h : Setups s code) (k : CallID) : Setups (s.noted k) code := by
  rw [Streams.noted]
  split
  · exact h.modifyAttempt k rfl rfl
  · exact h

/-- A `setupstream` goes out. -/
theorem publish (h : Setups s code) : Setups s.publish code := by
  rw [Streams.publish]
  split
  · exact h
  rename_i husable
  have hopen : s.disposed = false := by
    rw [Streams.usable, decide_eq_false_iff_not, not_not] at husable
    exact husable.1
  constructor
  · intro k hsending
    by_cases hk : k = s.nextCall
    · exact ⟨hk ▸ Nat.lt_succ_self _, Or.inr (hk ▸ List.mem_append_right _ List.mem_cons_self)⟩
    · change (if k = s.nextCall then _ else s.attempts k).sending = true at hsending
      rw [if_neg hk] at hsending
      obtain ⟨hlt, hwaits⟩ := h.waiting k hsending
      refine ⟨Nat.lt_succ_of_lt hlt, ?_⟩
      show (if k = s.nextCall then _ else s.attempts k).reset = true ∨ k ∈ s.publishing ++ _
      rw [if_neg hk]
      exact hwaits.imp_right (List.mem_append_left _)
  · intro k info hop
    obtain ⟨hlt, hsent, -⟩ := h.adopting k info hop
    refine ⟨Nat.lt_succ_of_lt hlt, ?_, hopen⟩
    show (if k = s.nextCall then _ else s.attempts k).sending = false
    rw [if_neg (Nat.ne_of_lt hlt)]
    exact hsent
  · intro k id hop
    obtain ⟨hlt, hsent⟩ := h.orphaning k id hop
    refine ⟨Nat.lt_succ_of_lt hlt, ?_⟩
    show (if k = s.nextCall then _ else s.attempts k).sending = false
    rw [if_neg (Nat.ne_of_lt hlt)]
    exact hsent
  · intro hdisposed
    exact absurd (hopen.symm.trans hdisposed) Bool.false_ne_true

theorem watch (h : Setups s code) (target : Str ⊕ StreamInfo) (aborted : Bool) :
    Setups (s.watch target aborted) code := by
  rw [Streams.watch]
  dsimp only
  split
  · exact h
  split
  · exact h
  rename_i hnot
  have hopen : s.disposed = false := by
    by_contra hdisposed
    refine hnot (Or.inl ?_)
    rw [Streams.usable, decide_eq_false_iff_not]
    exact fun husable => hdisposed husable.1
  exact ⟨h.waiting, h.adopting, h.orphaning,
    fun hdisposed => absurd (hopen.symm.trans hdisposed) Bool.false_ne_true⟩

/-- `#reset`, of Streams that may have been disposed just now. -/
theorem reset (h : Setups s code) (disposed : Bool)
    (hadopting : ∀ k info, Op.adopted k info ∈ code → disposed = false) (gone : Failure)
    (ended : EndCause) (cause : PeerCloseCause) :
    Setups ({ s with disposed }.reset gone ended cause).1
      (({ s with disposed }.reset gone ended cause).2 ++ code) := by
  obtain ⟨attempts, hattempts, hcalm⟩ := Calm.reset { s with disposed } gone ended cause
  have hreset : ∀ k, (attempts k).sending = true → (attempts k).reset = true := by
    intro k hsending
    obtain ⟨hof, hwaits⟩ := hattempts k
    rw [hof.sending] at hsending
    exact (h.waiting k hsending).2.elim hof.reset hwaits
  refine calm ⟨fun k hsending => ?_, fun k info hop => ?_, fun k id hop => ?_,
    fun _ => ⟨fun _ => rfl, fun _ => rfl, hreset⟩⟩ hcalm
  · refine ⟨(h.waiting k ?_).1, Or.inl (hreset k hsending)⟩
    exact (hattempts k).1.sending ▸ hsending
  · obtain ⟨hlt, hsent, -⟩ := h.adopting k info hop
    exact ⟨hlt, (hattempts k).1.sending.trans hsent, hadopting k info hop⟩
  · obtain ⟨hlt, hsent⟩ := h.orphaning k id hop
    exact ⟨hlt, (hattempts k).1.sending.trans hsent⟩

/-- `dispose`, while no stream is being adopted. -/
theorem dispose (h : Setups s code) (hnone : ∀ k info, Op.adopted k info ∉ code) :
    Setups s.dispose.1 (s.dispose.2 ++ code) := by
  rw [Streams.dispose]
  split
  · exact h
  · exact h.reset _ (fun k info hop => absurd hop (hnone k info)) _ _ _

theorem disconnected (h : Setups s code) : Setups s.disconnected.1 (s.disconnected.2 ++ code) :=
  h.reset s.disposed (fun k info hop => (h.adopting k info hop).2.2) _ _ _

/-- A `setupstream` is answered for good. -/
theorem done (h : Setups s code) {k : CallID} (hsent : (s.attempts k).sending = false) :
    Setups (s.setupDone k) code := by
  refine ⟨fun j hsending => ?_, h.adopting, h.orphaning, h.emptied⟩
  obtain ⟨hlt, hwaits⟩ := h.waiting j hsending
  have hne : j ≠ k := by
    rintro rfl
    exact Bool.false_ne_true (hsent.symm.trans hsending)
  exact ⟨hlt, hwaits.imp_right (List.mem_erase_of_ne hne).mpr⟩

theorem refused (h : Setups s code) {k : CallID} (hsent : (s.attempts k).sending = false)
    (failure : Failure) : Setups ((s.rejectOutcome k failure).setupDone k) code := by
  have hrejected : Setups (s.rejectOutcome k failure) code := h.modifyAttempt k rfl rfl
  refine hrejected.done ?_
  rw [Streams.rejectOutcome, Streams.attempts_modifyAttempt, if_pos rfl]
  exact hsent

theorem setupInfo (h : Setups s []) {k : CallID} (hlt : k < s.nextCall)
    (hsent : (s.attempts k).sending = false)
    (hopen : (s.attempts k).reset = false → s.disposed = false) (info : Option StreamInfo) :
    Setups (s.setupInfo k info).1 (s.setupInfo k info).2 := by
  cases info with
  | none =>
    rw [Streams.setupInfo]
    split
    · exact h.done hsent
    · exact h.refused hsent .noStream
  | some info =>
    have hknown : (s.emit (.announced k info.id s.connected)).Known info.id :=
      Or.inr (Or.inl ⟨k, s.connected, List.mem_append_right _ List.mem_cons_self⟩)
    have hnoted : Setups (s.emit (.announced k info.id s.connected)) [] :=
      ⟨h.waiting, h.adopting, h.orphaning, h.emptied⟩
    rw [Streams.setupInfo]
    dsimp only
    split
    · split
      · have hstopped : Setups ((s.emit (.announced k info.id s.connected)).bestEffort
            (.stopstream info.id 0)) [] := hnoted.still (.bestEffort _ _)
        exact hstopped.done hsent
      · exact hnoted.done hsent
    rename_i hreset
    split
    · let noted : Streams := { s.emit (.announced k info.id s.connected) with
        orphans := remember maxOrphans info.id s.orphans }
      have horphan : Setups noted [.orphaned k info.id] :=
        { waiting := h.waiting
          adopting := fun k' info' hop => by cases List.mem_singleton.mp hop
          orphaning := fun k' id hop => by
            obtain ⟨rfl, -⟩ := Op.orphaned.inj (List.mem_singleton.mp hop)
            exact ⟨hlt, hsent⟩
          emptied := h.emptied }
      have hended : Calm noted (noted.endStream info.id .stopped 0) :=
        (Calm.refl noted).endStream info.id 0 fun _ => hknown
      exact horphan.calm hended
    split
    · exact hnoted.refused hsent .streamEnded
    · have hadopt : Setups (s.emit (.announced k info.id s.connected)) [.adopted k info] :=
        { waiting := h.waiting
          adopting := fun k' info' hop => by
            obtain ⟨rfl, -⟩ := Op.adopted.inj (List.mem_singleton.mp hop)
            exact ⟨hlt, hsent, hopen (Bool.eq_false_iff.mpr hreset)⟩
          orphaning := fun k' id hop => by cases List.mem_singleton.mp hop
          emptied := h.emptied }
      exact hadopt.calm (.learn _ info)

theorem setup (h : Setups s []) (k : CallID) (result : Except Failure (List Params)) :
    Setups (s.setup k result).1 (s.setup k result).2 := by
  rw [Streams.setup]
  split
  · exact h
  rename_i hsending
  rw [Bool.not_eq_false] at hsending
  obtain ⟨hlt, -⟩ := h.waiting k hsending
  let answered := s.modifyAttempt k fun attempt => { attempt with sending := false }
  have hself : answered.attempts k = { s.attempts k with sending := false } := if_pos rfl
  have hother : ∀ j, (answered.attempts j).sending = true →
      (s.attempts j).sending = true ∧ (answered.attempts j).reset = (s.attempts j).reset := by
    intro j hj
    by_cases hjk : j = k
    · rw [hjk, hself] at hj
      cases hj
    · rw [show answered.attempts j = s.attempts j from if_neg hjk] at hj ⊢
      exact ⟨hj, rfl⟩
  have hanswered : Setups answered [] :=
    { waiting := fun j hj => by
        obtain ⟨hold, hreset⟩ := hother j hj
        rw [hreset]
        exact h.waiting j hold
      adopting := fun _ _ hop => absurd hop List.not_mem_nil
      orphaning := fun _ _ hop => absurd hop List.not_mem_nil
      emptied := fun hdisposed => by
        obtain ⟨hpublished, hwatching, hall⟩ := h.emptied hdisposed
        refine ⟨hpublished, hwatching, fun j hj => ?_⟩
        obtain ⟨hold, hreset⟩ := hother j hj
        exact hreset.trans (hall j hold) }
  have hsent : (answered.attempts k).sending = false := by rw [hself]
  cases result with
  | error failure => exact hanswered.refused hsent failure
  | ok rows =>
    refine hanswered.setupInfo hlt hsent (fun hreset => ?_) _
    rw [hself] at hreset
    refine Bool.eq_false_iff.mpr fun hdisposed => ?_
    exact Bool.false_ne_true (hreset.symm.trans ((h.emptied hdisposed).2.2 k hsending))

/-- The stream is published, which is not done by disposed Streams. -/
theorem adopted {k : CallID} {info : StreamInfo} (h : Setups s (.adopted k info :: code)) :
    Setups (s.adopted k info) code := by
  obtain ⟨-, hsent, hopen⟩ := h.adopting k info List.mem_cons_self
  have hresolve : ∀ {t : Streams} (p : PubID), Setups t code → t.attempts = s.attempts →
      Setups ((t.modifyAttempt k fun attempt =>
        { attempt with outcome := attempt.outcome.settle (.resolved p) }).setupDone k) code := by
    intro t p ht hsame
    have hsettled : Setups (t.modifyAttempt k fun attempt =>
        { attempt with outcome := attempt.outcome.settle (.resolved p) }) code :=
      ht.modifyAttempt k rfl rfl
    refine hsettled.done ?_
    rw [Streams.attempts_modifyAttempt, if_pos rfl, hsame]
    exact hsent
  unfold Streams.adopted
  dsimp only
  split
  · exact hresolve _ h.tail rfl
  · refine hresolve _ ⟨h.tail.waiting, h.tail.adopting, h.tail.orphaning, fun hdisposed => ?_⟩ rfl
    exact absurd (hopen.symm.trans hdisposed) Bool.false_ne_true

theorem orphaned {k : CallID} {id : Str} (h : Setups s (.orphaned k id :: code)) :
    Setups (s.orphaned k id) code := by
  have hsent := (h.orphaning k id List.mem_cons_self).2
  have hstopped : Calm s (s.bestEffort (.stopstream id 0), []) := .bestEffort s _
  exact done (h.tail.calm hstopped) hsent

theorem call (h : Setups s code) {k : Call}
    (hdispose : k = .dispose → ∀ j info, Op.adopted j info ∉ code) :
    Setups (Streams.call k s).1 ((Streams.call k s).2 ++ code) := by
  by_cases hk : Calm.ofCall k = true
  · cases k with
    | publish => exact h.publish
    | giveUp k failure =>
      rw [Streams.call]
      split
      · exact h.giveUp k failure
      · exact h
    | watch target aborted => exact h.watch target aborted
    | dispose => exact h.dispose (hdispose rfl)
    | _ => cases hk
  · exact h.calm (.call s (Bool.eq_false_iff.mpr hk))

theorem event (h : Setups s []) (e : Event) :
    Setups (Streams.event e s).1 (Streams.event e s).2 := by
  by_cases he : Calm.ofEvent e = true
  · cases e with
    | setup k result => exact h.setup k result
    | heard k => exact h.heard k
    | noted k => exact h.noted k
    | disconnected =>
      have hreset := h.disconnected
      rw [List.append_nil] at hreset
      change Setups (s.subscribed s.disconnected).1 (s.subscribed s.disconnected).2
      rw [Streams.subscribed]
      split
      · exact h
      · exact hreset
    | _ => cases he
  · have hcalm := h.calm (.event s (Bool.eq_false_iff.mpr he))
    rwa [List.append_nil] at hcalm

theorem exec {op : Op} (h : Setups s (op :: code)) :
    Setups (Streams.exec op s).1 ((Streams.exec op s).2 ++ code) := by
  by_cases hop : op.isSetup = true
  · cases op with
    | adopted k info => exact h.adopted
    | orphaned k id => exact h.orphaned
    | _ => cases hop
  · exact h.tail.calm (.exec s (Bool.eq_false_iff.mpr hop))

end Setups

/-! ### Orderly runs -/

/-- The rest of `#adopt`. -/
def Op.adopts : Op → Bool
  | .adopted _ _ => true
  | _ => false

/-- `dispose` is not called while a new stream is told of that is still to be published, and
after its warning `accept` finds its request pending. -/
def orderly (c : Config Streams Op) : Label Call Event → Bool
  | .call .dispose => !program.open_ c.code || c.code.all fun op => !op.adopts
  | .go =>
    match c.code with
    | .accepting r :: _ => (c.state.requests r).state = .pending
    | _ => true
  | _ => true

/-- Where `dispose` may be called no stream is being adopted. -/
theorem not_mem_of_dispose {code : List Op} (hopen : program.open_ code = true)
    (h : (!program.open_ code || code.all fun op => !op.adopts) = true) (k : CallID)
    (info : StreamInfo) : Op.adopted k info ∉ code := by
  intro hop
  rw [hopen, Bool.not_true, Bool.false_or] at h
  cases List.all_eq_true.mp h _ hop

/-- What holds at every step of an orderly run. -/
structure Upheld (s : Streams) (code : List Op) : Prop where
  sound : Sound s.toSession code
  setups : Setups s code

theorem upheld_kept : program.Kept (orderly · ·) Upheld where
  event e s _ h := ⟨h.sound.event e, h.setups.event e⟩
  call k s rest hopen hl h := by
    refine ⟨h.sound.call k, h.setups.call ?_⟩
    rintro rfl
    exact not_mem_of_dispose hopen hl
  exec op s rest hl h := by
    refine ⟨h.sound.exec ?_, h.setups.exec⟩
    rintro r rfl
    exact of_decide_eq_true hl

theorem sound_new : Sound ({} : Session) [] where
  pubs := ⟨nofun, nofun, nofun, fun _ => rfl, fun _ _ => rfl⟩
  viewers := ⟨nofun, nofun, nofun, nofun, nofun, nofun, nofun, nofun, nofun, nofun, nofun⟩
  watches := ⟨nofun, nofun, nofun, nofun, nofun, nofun, nofun, nofun, fun _ => Nat.zero_le 1, nofun,
    nofun, fun _ _ => rfl⟩
  peers _ := ⟨[], ⟨.closed, none⟩, rfl⟩
  requests _ := ⟨Nat.zero_le 1, fun _ => rfl, nofun⟩
  accepting := nofun

theorem setups_new (rememberDenied connected supported : Bool) (self : ClientID)
    (view : ClientID → Option Identity) (streaming : List ClientID) :
    Setups (.new rememberDenied connected supported self view streaming) [] := by
  have hfirst : Setups { rememberDenied, connected, supported, self, view } [] :=
    ⟨nofun, fun _ _ hop => absurd hop List.not_mem_nil,
      fun _ _ hop => absurd hop List.not_mem_nil, nofun⟩
  rw [Streams.new]
  split
  · exact hfirst.still (.foldl .discover streaming _)
  · exact hfirst

theorem upheld_new (rememberDenied connected supported : Bool) (self : ClientID)
    (view : ClientID → Option Identity) (streaming : List ClientID) :
    Upheld (.new rememberDenied connected supported self view streaming) [] :=
  ⟨session_new rememberDenied connected supported self view streaming ▸ sound_new,
    setups_new rememberDenied connected supported self view streaming⟩

/-! ### What a call of `watch` comes to -/

/-- What a call of `watch` waits for is heard, as far as it has come. -/
def hearing (w : WatchID) (result : Except Failure Unit) : List (Label Call Event) :=
  [.event (.joined w result), .event (.heardWatch w), .event (.caught w), .event (.heardWatch w)]

section Hearing

variable {s : Streams} {w : WatchID}

/-- What the call waits for has settled, or it waits no more. -/
def Streams.Heard (s : Streams) (w : WatchID) : Prop :=
  (s.watches w).settled ≠ .pending ∨ (s.watches w).call = .settled

theorem call_answerWatch (s : Streams) (w : WatchID) (result : Except Failure PeerID) :
    ((s.answerWatch w result).watches w).call = .settled := by
  rw [Streams.answerWatch, Streams.watches_modifyWatch, if_pos rfl]

theorem call_joined (h : s.Heard w) (result : Except Failure Unit) :
    (s.joined w result).Heard w ∧ ((s.joined w result).watches w).call ≠ .sending := by
  rw [Streams.joined]
  split
  · exact ⟨h, ‹_›⟩
  · rename_i hsending
    have hsettled : (s.watches w).settled ≠ .pending := by
      refine h.resolve_right ?_
      rw [not_not.mp hsending]
      exact fun hcall => by cases hcall
    rw [Streams.Heard, Streams.watches_modifyWatch, if_pos rfl]
    cases result with
    | ok _ => exact ⟨Or.inl hsettled, fun hcall => by cases hcall⟩
    | error failure => exact ⟨Or.inl hsettled, fun hcall => by cases hcall⟩

/-- A call that has been sent has its answer then, or has failed so far. -/
theorem call_heardWatch (h : s.Heard w) (hsent : (s.watches w).call ≠ .sending) :
    ((s.heardWatch w).watches w).call = .settled ∨
      (∃ failure, ((s.heardWatch w).watches w).call = .thrown failure) ∧
        ((s.heardWatch w).watches w).settled ≠ .pending := by
  rw [Streams.heardWatch]
  split
  · exact Or.inl (call_answerWatch s w _)
  · rename_i failure hcall hsettled
    rw [Streams.watches_modifyWatch, if_pos rfl]
    refine Or.inr ⟨⟨failure, rfl⟩, ?_⟩
    rw [hsettled]
    exact fun hpending => by cases hpending
  · exact Or.inl (call_answerWatch s w _)
  · exact Or.inl (call_answerWatch s w _)
  · rename_i hwaits hwaits' howed howed'
    rcases h with hsettled | hcall
    swap
    · exact Or.inl hcall
    cases hcall : (s.watches w).call with
    | sending => exact absurd hcall hsent
    | settled => exact Or.inl rfl
    | thrown failure => exact Or.inr ⟨⟨failure, rfl⟩, hsettled⟩
    | waiting =>
      cases hs : (s.watches w).settled with
      | pending => exact absurd hs hsettled
      | resolved q => exact absurd hs (hwaits q hcall)
      | rejected failure => exact absurd hs (hwaits' failure hcall)
    | owed =>
      cases hs : (s.watches w).settled with
      | pending => exact absurd hs hsettled
      | resolved q => exact absurd hs (howed q hcall)
      | rejected failure => exact absurd hs (howed' failure hcall)

/-- One that has failed has its answer then, or waits for what settles the watch. -/
theorem call_caught (hsound : WatchesSound s.toSession [])
    (h : (s.watches w).call = .settled ∨
      (∃ failure, (s.watches w).call = .thrown failure) ∧ (s.watches w).settled ≠ .pending) :
    (s.caught w).2 = [] ∧ (((s.caught w).1.watches w).call = .settled ∨
      ((s.caught w).1.watches w).call = .owed ∧
        ((s.caught w).1.watches w).settled ≠ .pending) := by
  rw [Streams.caught]
  dsimp only
  rcases h with hcall | ⟨⟨failure, hcall⟩, hsettled⟩
  · rw [hcall]
    exact ⟨rfl, Or.inl hcall⟩
  rw [hcall]
  have hleft : s.watching.get? (s.watches w).id ≠ some w ∨ (s.watches w).view.isSome := by
    by_contra hheld
    rw [not_or, not_not, Option.not_isSome_iff_eq_none] at hheld
    exact hsettled (hsound.waits w hheld.1 hheld.2).1
  dsimp only
  rw [if_pos hleft]
  split
  · exact ⟨rfl, Or.inl (call_answerWatch s w _)⟩
  · split
    · exact ⟨rfl, Or.inl (call_answerWatch s w _)⟩
    · rw [Streams.watches_modifyWatch, if_pos rfl]
      exact ⟨rfl, Or.inr ⟨rfl, hsettled⟩⟩

theorem call_owed (h : (s.watches w).call = .settled ∨
    (s.watches w).call = .owed ∧ (s.watches w).settled ≠ .pending) :
    ((s.heardWatch w).watches w).call = .settled := by
  rw [Streams.heardWatch]
  rcases h with hcall | ⟨hcall, hsettled⟩
  · rw [hcall]
    exact hcall
  rw [hcall]
  cases hs : (s.watches w).settled with
  | pending => exact absurd hs hsettled
  | resolved q => exact call_answerWatch s w _
  | rejected failure => exact call_answerWatch s w _

/-- A call of which the watch has settled comes to its one answer. -/
theorem answers_hearing (h : Sound s.toSession []) (hw : w < s.nextWatch) (hheard : s.Heard w)
    (result : Except Failure Unit) :
    ((run program.step ⟨s, []⟩ (hearing w result)).state.watches w).answers.length = 1 := by
  have hjoined := h.joined w result
  obtain ⟨hheard', hsent⟩ := call_joined hheard result
  have hfirst := hjoined.heardWatch w
  have hcaught := hfirst.caught w
  obtain ⟨hnone, howed⟩ := call_caught hfirst.watches (call_heardWatch hheard' hsent)
  rw [hnone] at hcaught
  have hlast := hcaught.heardWatch w
  have hrun : run program.step ⟨s, []⟩ (hearing w result) =
      ⟨(((s.joined w result).heardWatch w).caught w).1.heardWatch w, []⟩ := by
    show program.step ⟨_, (((s.joined w result).heardWatch w).caught w).2⟩ (.event (.heardWatch w)) =
      _
    rw [hnone]
    rfl
  have hlater := (Later.run ⟨s, []⟩ (hearing w result)).nextWatch
  rw [hrun] at hlater ⊢
  rw [hlast.watches.answered w (hw.trans_le hlater), if_pos (call_owed howed)]

end Hearing

/-! ### The result -/

/-- Each object tells of its end once, and a peer of nothing after it. -/
structure TellsOnce (s : Session) : Prop where
  ended : ∀ p, (s.pubs p).endings ≤ 1
  closed : ∀ q, (s.peers q).Told
  requests : ∀ r, (s.requests r).Told
  answers : ∀ w < s.nextWatch, (s.watches w).answers.length ≤ 1

/-- What has ended is in no map, and has told of it. -/
structure Cleared (s : Session) : Prop where
  published : ∀ id p, s.published.get? id = some p → (s.pubs p).ended = false
  ended : ∀ p, (s.pubs p).ended = true → (s.pubs p).endings = 1
  peers : ∀ p c q, (s.pubs p).peers.get? c = some q →
    (s.pubs p).ended = false ∧ (s.peers q).closed = false
  pending : ∀ p c r, (s.pubs p).pending.get? c = some r → (s.requests r).state.isOver = false
  requests : ∀ r < s.nextRequest, (s.requests r).state = .pending →
    (s.pubs (s.requests r).stream).ended = false
  watching : ∀ id w, s.watching.get? id = some w →
    ((s.watches w).view = none → (s.watches w).settled = .pending) ∧
      ∀ q, (s.watches w).view = some q → (s.peers q).closed = false

/-- All that there was before has ended. -/
structure AllOver (before : Session) (s : Streams) : Prop where
  pubs : ∀ p < before.nextPub, (s.pubs p).ended = true ∧ (s.pubs p).endings = 1
  peers : ∀ q < before.nextPeer, (s.peers q).closed = true
  requests : ∀ r < before.nextRequest, (s.requests r).state ≠ .pending
  watches : ∀ w < before.nextWatch, ∀ result,
    ((run program.step ⟨s, []⟩ (hearing w result)).state.watches w).answers.length = 1

/-- The Streams are disposed, or hear that the connection has ended. -/
def EndsAll (c : Config Streams Op) : Label Call Event → Prop
  | .call .dispose => program.open_ c.code = true
  | .event .disconnected => c.code = []
  | _ => False

section Over

variable {c : Config Streams Op} {s : Streams}

theorem Sound.tellsOnce {code : List Op} (h : Sound s.toSession code) : TellsOnce s.toSession where
  ended p := by
    have honce := h.pubs.once p
    split at honce
    · omega
    · omega
  closed := h.peers
  requests := h.requests
  answers w hw := by
    rw [h.watches.answered w hw]
    split
    · exact Nat.le_refl 1
    · exact Nat.zero_le 1

theorem Sound.endings (h : Sound s.toSession []) {p : PubID} (hended : (s.pubs p).ended = true) :
    (s.pubs p).endings = 1 := by
  have honce := h.pubs.once p
  rwa [hended, if_pos rfl] at honce

/-- Between turns nothing is left to do for what has ended. -/
theorem Sound.cleared (h : Sound s.toSession []) : Cleared s.toSession where
  published id p hget := (h.pubs.held id p hget).2.2
  ended p hended := h.endings hended
  peers p c q hget := by
    refine ⟨Bool.eq_false_iff.mpr fun hended => ?_, (h.viewers.held p c q hget).2.2.2⟩
    rcases h.viewers.ends p c q hended hget with ⟨rs, e, hop⟩ | ⟨qs, e, hop, -⟩ | ⟨x, hop⟩
    · cases hop
    · cases hop
    · cases hop
  pending p c r hget := by
    refine Bool.eq_false_iff.mpr fun hover => ?_
    rcases h.viewers.leaves p c r hget hover with hop | hop | ⟨rs, e, hop⟩
    · cases hop
    · cases hop
    · cases hop
  requests r hr hstate := by
    refine Bool.eq_false_iff.mpr fun hended => ?_
    obtain ⟨rs, e, hop, -⟩ := h.viewers.closes r hr hstate hended
    cases hop
  watching id w hget := by
    obtain ⟨hw, hid⟩ := h.watches.held id w hget
    have hheld : Held s.toSession w := by rw [Held, hid, hget]
    exact ⟨fun hview => (h.watches.waits w hheld hview).1,
      fun q hview => (h.watches.view w hw q hview).2.2.2 hheld⟩

/-- What the maps hold is new since: what there was has ended. -/
theorem allOver_of_gone {code : List Op} (hbefore : Sound c.state.toSession code)
    (h : Sound s.toSession []) (hlater : Later c.state.toSession s.toSession)
    (hpublished : ∀ id p, s.published.get? id = some p → c.state.nextPub ≤ p)
    (hwatching : ∀ id w, s.watching.get? id = some w → c.state.nextWatch ≤ w) :
    AllOver c.state.toSession s := by
  have hended : ∀ p < c.state.nextPub, (s.pubs p).ended = true := by
    intro p hp
    by_contra hopen
    rcases h.pubs.live p (hp.trans_le hlater.nextPub) (Bool.eq_false_iff.mpr hopen) with
      hget | ⟨e, hop⟩
    · exact absurd (hpublished _ p hget) (Nat.not_le.mpr hp)
    · cases hop
  have hnot : ∀ w < c.state.nextWatch, ¬Held s.toSession w := fun w hw hheld =>
    absurd (hwatching _ w hheld) (Nat.not_le.mpr hw)
  refine ⟨fun p hp => ⟨hended p hp, h.endings (hended p hp)⟩, fun q hq => ?_, fun r hr hstate => ?_,
    fun w hw result => ?_⟩
  · by_contra hclosed
    rw [Bool.not_eq_true] at hclosed
    obtain ⟨howner, hstays⟩ := hlater.peers q hq
    have hopen : (c.state.peers q).closed = false := by
      refine Bool.eq_false_iff.mpr fun hbefore' => ?_
      rw [hstays hbefore'] at hclosed
      cases hclosed
    have hq' := hq.trans_le hlater.nextPeer
    cases hview : (c.state.peers q).owner with
    | viewer p =>
      have hp := (hbefore.viewers.live q hq hopen p hview).1
      have hget := (h.viewers.live q hq' hclosed p (howner.trans hview)).2
      have hlive := (h.cleared.peers p _ q hget).1
      exact Bool.false_ne_true (hlive.symm.trans (hended p hp))
    | view w =>
      have hw := (hbefore.watches.views q hq w hview).1
      rcases (h.watches.views q hq' w (howner.trans hview)).2.2 hclosed with
        hheld | ⟨gone, cause, hop⟩ | ⟨x, hop⟩
      · exact hnot w hw hheld
      · cases hop
      · cases hop
  · obtain ⟨hstream, hstays⟩ := hlater.requests r hr
    have hpending : (c.state.requests r).state = .pending := by
      by_contra hanswered
      exact hstays hanswered hstate
    have hp := (hbefore.viewers.pending r hr hpending).1
    have hlive := h.cleared.requests r (hr.trans_le hlater.nextRequest) hstate
    rw [hstream] at hlive
    exact Bool.false_ne_true (hlive.symm.trans (hended _ hp))
  · have hw' := hw.trans_le hlater.nextWatch
    refine answers_hearing h hw' ?_ result
    by_contra hheard
    rw [Streams.Heard, not_or, not_not] at hheard
    rcases h.watches.unsettled w hw' hheard.1 with hheld | hcall | ⟨gone, cause, hop⟩ | ⟨f, hop⟩
    · exact hnot w hw hheld
    · exact hheard.2 hcall
    · cases hop
    · cases hop

/-- What ends everything empties the maps. -/
theorem get?_of_endsAll {l : Label Call Event} (h : Upheld c.state c.code) (hl : EndsAll c l) :
    (∀ id, (program.step c l).state.published.get? id = none) ∧
      ∀ id, (program.step c l).state.watching.get? id = none := by
  obtain ⟨t, code⟩ := c
  have hreset : ∀ (u : Streams) gone ended cause,
      (∀ id, (u.reset gone ended cause).1.published.get? id = none) ∧
        ∀ id, (u.reset gone ended cause).1.watching.get? id = none := fun _ _ _ _ =>
    ⟨fun _ => rfl, fun _ => rfl⟩
  cases l with
  | go => cases hl
  | call k =>
    cases k with
    | dispose =>
      have hstep : program.step ⟨t, code⟩ (.call .dispose) = Program.before t.dispose code :=
        if_pos hl
      rw [hstep, Program.before, Streams.dispose]
      split
      · rename_i hdisposed
        exact ⟨(h.setups.emptied hdisposed).1, (h.setups.emptied hdisposed).2.1⟩
      · exact hreset { t with disposed := true } .disposed .disposed .disposed
    | _ => cases hl
  | event e =>
    cases e with
    | disconnected =>
      obtain rfl : code = [] := hl
      change (∀ id, (t.subscribed t.disconnected).1.published.get? id = none) ∧
        ∀ id, (t.subscribed t.disconnected).1.watching.get? id = none
      rw [Streams.subscribed]
      split
      · rename_i hdisposed
        exact ⟨(h.setups.emptied hdisposed).1, (h.setups.emptied hdisposed).2.1⟩
      · exact hreset t .notConnected .disconnected .disconnected
    | _ => cases hl

end Over

/-- **Stream teardown**: in every orderly run each published stream ends once, each peer, view
and request closes once and each watch has one answer, and nothing is delivered to a peer that
has closed.  Between turns what has ended is in no map; once the Streams are disposed, or have
heard that the connection ended, all that there was has ended; and disposed Streams hold
nothing that has not. -/
theorem teardown (rememberDenied connected supported : Bool) (self : ClientID)
    (view : ClientID → Option Identity) (streaming : List ClientID) (ls : List (Label Call Event))
    (hls : Along program.step (orderly · ·)
      ⟨.new rememberDenied connected supported self view streaming, []⟩ ls) :
    let c₀ : Config Streams Op :=
      ⟨.new rememberDenied connected supported self view streaming, []⟩
    let c := run program.step c₀ ls
    TellsOnce c.state.toSession ∧
      (c.code = [] →
        Cleared c.state.toSession ∧
        (c.state.disposed = true → AllOver c.state.toSession c.state) ∧
        ∀ before l after, ls = before ++ l :: after → EndsAll (run program.step c₀ before) l →
          AllOver (run program.step c₀ before).state.toSession c.state) := by
  intro c₀ c
  have hnew : Upheld c₀.state c₀.code :=
    upheld_new rememberDenied connected supported self view streaming
  have hc : Upheld c.state c.code := Program.run_kept upheld_kept hnew hls
  refine ⟨hc.sound.tellsOnce, fun hcode => ?_⟩
  rw [hcode] at hc
  refine ⟨hc.sound.cleared, fun hdisposed => ?_, fun before l after hsplit hends => ?_⟩
  · obtain ⟨hpublished, hwatching, -⟩ := hc.setups.emptied hdisposed
    refine allOver_of_gone hc.sound hc.sound (.refl _) (fun id p hget => ?_) fun id w hget => ?_
    · cases (hpublished id).symm.trans hget
    · cases (hwatching id).symm.trans hget
  · have hbefore : Upheld (run program.step c₀ before).state (run program.step c₀ before).code := by
      rw [hsplit, along_append] at hls
      exact Program.run_kept upheld_kept hnew hls.1
    obtain ⟨hpublished, hwatching⟩ := get?_of_endsAll hbefore hends
    have hfirst := Later.step (run program.step c₀ before) l
    have hrest : Later (program.step (run program.step c₀ before) l).state.toSession
        c.state.toSession := by
      have hrun : c = run program.step (program.step (run program.step c₀ before) l) after := by
        show run program.step c₀ ls = _
        rw [hsplit, run_append, run_cons]
      rw [hrun]
      exact Later.run _ after
    refine allOver_of_gone hbefore.sound hc.sound (hfirst.trans hrest) (fun id p hget => ?_)
      fun id w hget => ?_
    · refine hfirst.nextPub.trans ((hrest.published id p hget).resolve_left fun hold => ?_)
      cases (hpublished id).symm.trans hold
    · refine hfirst.nextWatch.trans ((hrest.watching id w hget).resolve_left fun hold => ?_)
      cases (hwatching id).symm.trans hold

/-- A stream with a viewer is published, and the Streams are disposed. -/
theorem teardown_viewer :
    let c := run program.step ⟨.new false true true 1 (fun _ => some {}) [], []⟩
      [.call .publish, .event (.setup 0 (.ok [InsertionMap.empty.set (.of "id") (.of "a")])), .go,
        .go, .event (.notification (.of "notifyjoinstreamrequest")
          ((InsertionMap.empty.set (.of "id") (.of "a")).set (.of "clid") (.of "5"))),
        .go, .go, .go, .go, .call (.accept 0 (.of "v=0") true), .go, .go, .call .dispose, .go, .go,
        .go, .go, .go, .go, .go, .go, .go, .go]
    c.code = [] ∧ c.state.nextPeer = 1 ∧ AllOver c.state.toSession c.state :=
  ⟨by decide, by decide, ((teardown false true true 1 (fun _ => some {}) [] _ (by decide)).2
    (by decide)).2.1 (by decide)⟩

/-- `dispose`, called by the listeners of `started` in `#adopt`, leaves a stream that is
published then; called by those of `warning` in `accept`, it leaves a viewer's peer. -/
theorem not_torn_down :
    (let c := run program.step ⟨.new false true true 1 (fun _ => some {}) [], []⟩
      [.call .publish, .event (.setup 0 (.ok [InsertionMap.empty.set (.of "id") (.of "a")])),
        .call .dispose, .go, .go, .go, .go]
    c.code = [] ∧ c.state.disposed = true ∧ ¬AllOver c.state.toSession c.state) ∧
    (let c := run program.step ⟨.new false true true 1 (fun _ => some {}) [], []⟩
      [.call .publish, .event (.setup 0 (.ok [InsertionMap.empty.set (.of "id") (.of "a")])), .go,
        .go, .event (.notification (.of "notifyjoinstreamrequest")
          ((InsertionMap.empty.set (.of "id") (.of "a")).set (.of "clid") (.of "5"))),
        .go, .go, .go, .go, .call (.accept 0 (.of "v=0") true), .call .dispose, .go, .go, .go, .go,
        .go, .go, .go, .go, .go, .go]
    c.code = [] ∧ c.state.disposed = true ∧ ¬AllOver c.state.toSession c.state) :=
  ⟨⟨by decide, by decide, fun h => absurd (h.pubs 0 (by decide)).1 (by decide)⟩,
    ⟨by decide, by decide, fun h => absurd (h.peers 0 (by decide)) (by decide)⟩⟩

end Teamspeak.Stream
