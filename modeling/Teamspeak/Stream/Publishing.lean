import Teamspeak.Stream.Teardown

/-!
# What the calls of `publish` come to

A `setupstream` is answered with the stream it started, which may come before its caller
gives up, after, or between.

* `Given s code`: each stream that was announced is given to its call, is to be, or is
  stopped; the calls that have its stream, and those that gave up, and what is published.
* `prompt`: no caller gives up, and nothing is disposed, while its stream is being published or
  before the caller has heard of it; an answer that names a stream names a new one, and comes
  to a caller that waits or that is known to have gone.
* `publish_given`: in such a run no stream of a call that rejected is published, each was
  stopped, and no two calls have one stream.
-/

namespace Teamspeak.Stream

/-- The stop of stream `id` was sent, or the server has reported it. -/
def Output.stops (id : Str) : Output → Bool
  | .sent (.stopstream id' _) => id' = id
  | .stopReported id' => id' = id
  | _ => false

/-- An answer that came in a connection names stream `id`. -/
def Output.starts (id : Str) : Output → Bool
  | .announced _ id' connected => id' = id && connected
  | _ => false

def Output.names (id : Str) : Output → Bool
  | .announced _ id' _ => id' = id
  | _ => false

def Streams.isStopped (s : Streams) (id : Str) : Bool := s.trace.any (Output.stops id)

/-- Stream `id` is not published, and was stopped if its answer came in a connection. -/
def Streams.isGone (s : Streams) (id : Str) : Bool :=
  (s.published.get? id).isNone && (s.isStopped id || !s.trace.any (Output.starts id))

/-- The rest of `#adopt` for attempt `k`. -/
def Op.adoptsFor (k : CallID) : Op → Bool
  | .adopted k' _ => k' = k
  | _ => false

def Outcome.isRejected {α : Type*} : Outcome α → Bool
  | .rejected _ => true
  | _ => false

/-- Whether the caller of attempt `k` may give up: it is settled, or its stream is not being
published and has not been, or is gone again. -/
def Streams.mayGiveUp (s : Streams) (code : List Op) (k : CallID) : Bool :=
  match (s.attempts k).caller, (s.attempts k).outcome with
  | .pending, .resolved p => s.isGone (s.pubs p).id
  | .pending, _ => code.all fun op => !op.adoptsFor k
  | _, _ => true

/-- Whether the answer to the `setupstream` of attempt `k` names a new stream, to a caller
that waits or is known to have gone, unless that stream has stopped. -/
def Streams.mayAnswer (s : Streams) (k : CallID) (rows : List Params) : Bool :=
  match s.infoOf rows with
  | none => true
  | some info =>
    let attempt := s.attempts k
    !s.trace.any (Output.names info.id) &&
      (attempt.reset || attempt.abandoned || info.id ∈ s.stopped || !attempt.caller.isRejected)

/-- Nothing is disposed while a stream is being published, no caller gives up between that and
hearing of it, and answers name new streams to callers that are not about to be known to have
gone. -/
def prompt (c : Config Streams Op) : Label Call Event → Bool
  | .call .dispose => !program.open_ c.code || c.code.all fun op => !op.adopts
  | .call (.giveUp k _) =>
    !program.open_ c.code || c.state.nextCall ≤ k || c.state.mayGiveUp c.code k
  | .event (.setup k (.ok rows)) =>
    !c.code.isEmpty || !(c.state.attempts k).sending || c.state.mayAnswer k rows
  | _ => true

/-! ### What holds of the calls -/

structure Given (s : Streams) (code : List Op) : Prop where
  one : ∀ k k' id b b', .announced k id b ∈ s.trace → .announced k' id b' ∈ s.trace → k = k'
  same : ∀ k id id' b b', .announced k id b ∈ s.trace → .announced k id' b' ∈ s.trace →
    id = id' ∧ b = b'
  answered : ∀ k id b, .announced k id b ∈ s.trace → (s.attempts k).sending = false
  unanswered : ∀ k, (s.attempts k).sending = true → (s.attempts k).reset = false →
    (s.attempts k).outcome = .pending
  called : ∀ k id b, .announced k id b ∈ s.trace → k < s.nextCall
  stopped : ∀ id ∈ s.stopped, .stopReported id ∈ s.trace ∨ ∃ k b, .announced k id b ∈ s.trace
  jobs : ∀ p reason, Job.stop p reason ∈ s.jobs → p < s.nextPub
  made : ∀ p < s.nextPub, ∃ k b, .announced k (s.pubs p).id b ∈ s.trace ∧
    (s.attempts k).outcome = .resolved p
  resolved : ∀ k p, (s.attempts k).outcome = .resolved p → p < s.nextPub ∧
    ∃ b, .announced k (s.pubs p).id b ∈ s.trace
  held : ∀ id p, s.published.get? id = some p → p < s.nextPub ∧ (s.pubs p).id = id
  heard : ∀ k p, (s.attempts k).caller = .resolved p → (s.attempts k).outcome = .resolved p
  rejected : ∀ k failure p, (s.attempts k).caller = .rejected failure →
    (s.attempts k).outcome = .resolved p → s.isGone (s.pubs p).id = true
  adopting : ∀ k info, Op.adopted k info ∈ code → (s.attempts k).outcome = .pending ∧
    (s.attempts k).caller = .pending ∧ ∃ b, .announced k info.id b ∈ s.trace
  alone : (code.filter Op.isSetup).length ≤ 1
  ends : ∀ k id b, .announced k id b ∈ s.trace →
    (∃ p, (s.attempts k).outcome = .resolved p) ∨ (∃ info, Op.adopted k info ∈ code) ∨
      Op.orphaned k id ∈ code ∨ (b = true → s.isStopped id = true)

section Trace

variable {s t : Streams} {turn : Turn} {id : Str} {outs : List Output}

theorem isStopped_of_append (htrace : t.trace = s.trace ++ outs) (h : s.isStopped id = true) :
    t.isStopped id = true := by
  rw [Streams.isStopped, htrace, List.any_append, Bool.or_eq_true]
  exact Or.inl h

theorem isStopped_of_mem {o : Output} (hmem : o ∈ s.trace) (ho : o.stops id = true) :
    s.isStopped id = true := List.any_eq_true.mpr ⟨o, hmem, ho⟩

theorem isGone_iff : s.isGone id = true ↔ s.published.get? id = none ∧
    ∀ k, .announced k id true ∈ s.trace → s.isStopped id = true := by
  rw [Streams.isGone, Bool.and_eq_true, Option.isNone_iff_eq_none, Bool.or_eq_true]
  refine and_congr_right fun _ => ⟨fun h k hmem => h.resolve_right ?_, fun h => ?_⟩
  · rw [Bool.not_eq_true', List.any_eq_false]
    exact fun hnone => hnone _ hmem (by simp [Output.starts])
  · by_cases hstopped : s.isStopped id = true
    · exact Or.inl hstopped
    refine Or.inr ?_
    rw [Bool.not_eq_true', List.any_eq_false]
    intro o hmem ho
    cases o with
    | announced k id' b =>
      rw [Output.starts, Bool.and_eq_true, decide_eq_true_eq] at ho
      obtain ⟨rfl, rfl⟩ := ho
      exact hstopped (h k hmem)
    | _ => cases ho

end Trace

namespace Given

variable {s t : Streams} {turn : Turn} {code : List Op} {k : CallID}

theorem known (h : Given s code) {id : Str} (hknown : s.Known id) :
    .stopReported id ∈ s.trace ∨ ∃ k b, .announced k id b ∈ s.trace := by
  rcases hknown with hreported | hannounced | ⟨p, hp, rfl⟩
  · exact Or.inl hreported
  · exact Or.inr hannounced
  · obtain ⟨k, b, hmem, -⟩ := h.made p (hp.elim id fun ⟨reason, hmem⟩ => h.jobs p reason hmem)
    exact Or.inr ⟨k, b, hmem⟩

theorem calm (h : Given s code) (hcalm : Calm s turn) : Given turn.1 (turn.2 ++ code) where
  one k k' id b b' hk hk' :=
    h.one k k' id b b' (hcalm.announced_iff.mp hk) (hcalm.announced_iff.mp hk')
  same k id id' b b' hk hk' :=
    h.same k id id' b b' (hcalm.announced_iff.mp hk) (hcalm.announced_iff.mp hk')
  answered k id b hk := by
    rw [hcalm.attempts]
    exact h.answered k id b (hcalm.announced_iff.mp hk)
  unanswered := hcalm.attempts ▸ h.unanswered
  called k id b hk := by
    rw [hcalm.nextCall]
    exact h.called k id b (hcalm.announced_iff.mp hk)
  stopped id hid := by
    have hold : (.stopReported id ∈ s.trace ∨ ∃ k b, .announced k id b ∈ s.trace) →
        .stopReported id ∈ turn.1.trace ∨ ∃ k b, .announced k id b ∈ turn.1.trace :=
      Or.imp hcalm.reported fun ⟨k, b, hk⟩ => ⟨k, b, hcalm.announced_iff.mpr hk⟩
    rcases hcalm.stopped id hid with hid | hreported | hknown
    · exact hold (h.stopped id hid)
    · exact Or.inl hreported
    · exact hold (h.known hknown)
  jobs p reason hmem := by
    rw [hcalm.nextPub]
    exact (hcalm.jobs p reason hmem).elim id fun ⟨reason', hmem'⟩ => h.jobs p reason' hmem'
  made p hp := by
    rw [hcalm.nextPub] at hp
    obtain ⟨k, b, hk, houtcome⟩ := h.made p hp
    refine ⟨k, b, ?_, hcalm.attempts ▸ houtcome⟩
    rw [hcalm.pubs p]
    exact hcalm.announced_iff.mpr hk
  resolved k p houtcome := by
    rw [hcalm.attempts] at houtcome
    obtain ⟨hp, b, hk⟩ := h.resolved k p houtcome
    rw [hcalm.nextPub, hcalm.pubs p]
    exact ⟨hp, b, hcalm.announced_iff.mpr hk⟩
  held id p hget := by
    rw [hcalm.nextPub, hcalm.pubs p]
    exact h.held id p (hcalm.published id p hget)
  heard := hcalm.attempts ▸ h.heard
  rejected k failure p hcaller houtcome := by
    rw [hcalm.attempts] at hcaller houtcome
    obtain ⟨hnone, hstopped⟩ := isGone_iff.mp (h.rejected k failure p hcaller houtcome)
    obtain ⟨outs, htrace, -⟩ := hcalm.trace
    rw [hcalm.pubs p, isGone_iff]
    refine ⟨Option.eq_none_iff_forall_ne_some.mpr fun p' hget => ?_, fun j hj => ?_⟩
    · cases hnone.symm.trans (hcalm.published _ p' hget)
    · exact isStopped_of_append htrace (hstopped j (hcalm.announced_iff.mp hj))
  adopting k info hop := by
    rw [hcalm.attempts]
    rcases List.mem_append.mp hop with hop | hop
    · cases hcalm.ops _ hop
    · obtain ⟨houtcome, hcaller, b, hk⟩ := h.adopting k info hop
      exact ⟨houtcome, hcaller, b, hcalm.announced_iff.mpr hk⟩
  alone := by
    rw [List.filter_append, List.filter_eq_nil_iff.mpr fun op hop => by simp [hcalm.ops op hop]]
    exact h.alone
  ends k id b hk := by
    rw [hcalm.attempts]
    obtain ⟨outs, htrace, -⟩ := hcalm.trace
    rcases h.ends k id b (hcalm.announced_iff.mp hk) with hp | ⟨info, hop⟩ | hop | hstopped
    · exact Or.inl hp
    · exact Or.inr (Or.inl ⟨info, List.mem_append_right _ hop⟩)
    · exact Or.inr (Or.inr (Or.inl (List.mem_append_right _ hop)))
    · exact Or.inr (Or.inr (Or.inr fun hb => isStopped_of_append htrace (hstopped hb)))

/-- What does not change what a call waits for, nor the streams it has been given. -/
theorem modifyAttempt (h : Given s code) (k : CallID) {f : Attempt → Attempt}
    (hsent : ∀ id b, .announced k id b ∈ s.trace → (f (s.attempts k)).sending = false)
    (hwaits : (f (s.attempts k)).sending = true → (f (s.attempts k)).reset = false →
      (f (s.attempts k)).outcome = .pending)
    (hresolved : ∀ p, (f (s.attempts k)).outcome = .resolved p ↔
      (s.attempts k).outcome = .resolved p)
    (hheard : ∀ p, (f (s.attempts k)).caller = .resolved p → (s.attempts k).outcome = .resolved p)
    (hrejected : ∀ failure p, (f (s.attempts k)).caller = .rejected failure →
      (s.attempts k).outcome = .resolved p → s.isGone (s.pubs p).id = true)
    (hadopting : ∀ info, Op.adopted k info ∈ code → (f (s.attempts k)).outcome = .pending ∧
      (f (s.attempts k)).caller = .pending) : Given (s.modifyAttempt k f) code := by
  have hattempts : ∀ j, (s.modifyAttempt k f).attempts j =
      if j = k then f (s.attempts k) else s.attempts j := fun _ => rfl
  have hsame : ∀ j p, ((s.modifyAttempt k f).attempts j).outcome = .resolved p ↔
      (s.attempts j).outcome = .resolved p := by
    intro j p
    rw [hattempts]
    split
    · rename_i heq
      rw [heq]
      exact hresolved p
    · exact Iff.rfl
  constructor
  · exact h.one
  · exact h.same
  · intro j id b hj
    rw [hattempts]
    split
    · rename_i heq
      exact hsent id b (heq ▸ hj)
    · exact h.answered j id b hj
  · intro j
    rw [hattempts]
    split
    · exact hwaits
    · exact h.unanswered j
  · exact h.called
  · exact h.stopped
  · exact h.jobs
  · intro p hp
    obtain ⟨j, b, hj, houtcome⟩ := h.made p hp
    exact ⟨j, b, hj, (hsame j p).mpr houtcome⟩
  · exact fun j p houtcome => h.resolved j p ((hsame j p).mp houtcome)
  · exact h.held
  · intro j p hcaller
    rw [hsame]
    rw [hattempts] at hcaller
    split at hcaller
    · rename_i heq
      exact heq ▸ hheard p hcaller
    · exact h.heard j p hcaller
  · intro j failure p hcaller houtcome
    rw [hsame] at houtcome
    rw [hattempts] at hcaller
    split at hcaller
    · rename_i heq
      exact hrejected failure p hcaller (heq ▸ houtcome)
    · exact h.rejected j failure p hcaller houtcome
  · intro j info hop
    obtain ⟨hpending, hcaller, hj⟩ := h.adopting j info hop
    rw [hattempts, ← and_assoc]
    refine ⟨?_, hj⟩
    split
    · rename_i heq
      exact hadopting info (heq ▸ hop)
    · exact ⟨hpending, hcaller⟩
  · exact h.alone
  · intro j id b hj
    exact (h.ends j id b hj).imp_left fun ⟨p, houtcome⟩ => ⟨p, (hsame j p).mpr houtcome⟩

/-! ### What callers do -/

theorem giveUp (h : Given s code) (k : CallID) (failure : Failure)
    (hmay : s.mayGiveUp code k = true) : Given (s.giveUp k failure) code := by
  rw [Streams.giveUp]
  refine h.modifyAttempt k (h.answered k) (h.unanswered k) (fun _ => Iff.rfl) (fun p hcaller => ?_)
    (fun failure' p hcaller houtcome => ?_) fun info hop => ?_
  · cases hc : (s.attempts k).caller with
    | pending | rejected => rw [hc] at hcaller; cases hcaller
    | resolved p' =>
      rw [hc] at hcaller
      exact h.heard k p (hc.trans hcaller)
  · rw [Streams.mayGiveUp] at hmay
    cases hc : (s.attempts k).caller with
    | pending =>
      rw [hc, houtcome] at hmay
      exact hmay
    | resolved p' => rw [hc] at hcaller; cases hcaller
    | rejected failure'' => exact h.rejected k failure'' p hc houtcome
  · obtain ⟨houtcome, hcaller, -⟩ := h.adopting k info hop
    rw [Streams.mayGiveUp, hcaller, houtcome] at hmay
    have hnot := List.all_eq_true.mp hmay _ hop
    simp [Op.adoptsFor] at hnot

theorem hears (h : Given s []) (k : CallID) : Given (s.heard k) [] := by
  rw [Streams.heard]
  refine h.modifyAttempt k (h.answered k) (h.unanswered k) (fun _ => Iff.rfl) (fun p hcaller => ?_)
    (fun failure p hcaller houtcome => ?_) fun info hop => absurd hop List.not_mem_nil
  · cases hc : (s.attempts k).caller with
    | pending =>
      rw [hc] at hcaller
      exact hcaller
    | resolved p' =>
      rw [hc] at hcaller
      exact h.heard k p (hc.trans hcaller)
    | rejected => rw [hc] at hcaller; cases hcaller
  · cases hc : (s.attempts k).caller with
    | pending =>
      rw [hc, houtcome] at hcaller
      cases hcaller
    | resolved p' => rw [hc] at hcaller; cases hcaller
    | rejected failure' => exact h.rejected k failure' p hc houtcome

theorem noted (h : Given s []) (k : CallID) : Given (s.noted k) [] := by
  rw [Streams.noted]
  split
  · exact h.modifyAttempt k (h.answered k) (h.unanswered k) (fun _ => Iff.rfl) (h.heard k) (h.rejected k)
      fun info hop => absurd hop List.not_mem_nil
  · exact h

/-- A `setupstream` goes out. -/
theorem publish (h : Given s code) : Given s.publish code := by
  rw [Streams.publish]
  split
  · exact h
  let t := { s with nextCall := s.nextCall + 1, publishing := s.publishing ++ [s.nextCall] }
  have hnew : ∀ id b, .announced s.nextCall id b ∉ s.trace :=
    fun id b hj => Nat.lt_irrefl _ (h.called _ id b hj)
  have hunmade : ∀ p, (s.attempts s.nextCall).outcome ≠ .resolved p := by
    intro p houtcome
    obtain ⟨-, b, hj⟩ := h.resolved s.nextCall p houtcome
    exact hnew _ b hj
  have hcalled : Given t code :=
    { h with called := fun j id b hj => Nat.lt_succ_of_lt (h.called j id b hj) }
  have hwaits : Given (t.modifyAttempt s.nextCall fun _ => { sending := true }) code := by
    refine hcalled.modifyAttempt _ (fun id b hj => absurd hj (hnew id b)) (fun _ _ => rfl)
      (fun p => ⟨fun hpending => ?_, fun houtcome => absurd houtcome (hunmade p)⟩)
      (fun p hpending => ?_) (fun failure p hpending => ?_) fun info hop => ⟨rfl, rfl⟩
    · cases hpending
    · cases hpending
    · cases hpending
  exact hwaits.calm (.send _ _)

theorem watch (h : Given s code) (target : Str ⊕ StreamInfo) (aborted : Bool) :
    Given (s.watch target aborted) code := by
  rw [Streams.watch]
  dsimp only
  split
  · exact h
  split
  · exact h
  · rename_i known _ _
    let t := ({ s with
      nextWatch := s.nextWatch + 1
      watching := s.watching.set (target.elim (fun id => id) StreamInfo.id) s.nextWatch
      closedViews := s.closedViews.erase (target.elim (fun id => id) StreamInfo.id) }.modifyWatch
      s.nextWatch fun _ =>
        { id := target.elim (fun id => id) StreamInfo.id, streamer := known.clientId, call := .sending })
    have hwatched : Given t code := { h with }
    exact hwatched.calm (.send t _)

/-! ### What becomes of a stream -/

/-- A stream that nothing has named is announced, and what is left to do, if anything, is for
it. -/
theorem announced (h : Given s []) (info : StreamInfo) (b : Bool) (hlt : k < s.nextCall)
    (hsent : (s.attempts k).sending = false) (hfirst : ∀ id b, .announced k id b ∉ s.trace)
    (hnew : ∀ k b, .announced k info.id b ∉ s.trace) (halone : (code.filter Op.isSetup).length ≤ 1)
    (hadopting : ∀ k' info', Op.adopted k' info' ∈ code → k' = k ∧ info' = info ∧
      (s.attempts k).outcome = .pending ∧ (s.attempts k).caller = .pending)
    (hends : (∃ info, Op.adopted k info ∈ code) ∨ Op.orphaned k info.id ∈ code ∨
      (b = true → s.isStopped info.id = true)) :
    Given (s.emit (.announced k info.id b)) code := by
  have htrace : (s.emit (.announced k info.id b)).trace = s.trace ++ [.announced k info.id b] := rfl
  have hmem : ∀ {j id b'}, .announced j id b' ∈ s.trace ++ [Output.announced k info.id b] →
      .announced j id b' ∈ s.trace ∨ j = k ∧ id = info.id ∧ b' = b := by
    intro j id b' hj
    exact (List.mem_append.mp hj).imp_right fun hj =>
      Output.announced.inj (List.mem_singleton.mp hj)
  constructor
  · intro j j' id b' b'' hj hj'
    rcases hmem hj with hj | ⟨rfl, rfl, -⟩
    · rcases hmem hj' with hj' | ⟨-, rfl, -⟩
      · exact h.one j j' id b' b'' hj hj'
      · exact absurd hj (hnew j b')
    · rcases hmem hj' with hj' | ⟨rfl, -, -⟩
      · exact absurd hj' (hnew j' b'')
      · rfl
  · intro j id id' b' b'' hj hj'
    rcases hmem hj with hold | ⟨rfl, rfl, rfl⟩
    · rcases hmem hj' with hold' | ⟨rfl, -, -⟩
      · exact h.same j id id' b' b'' hold hold'
      · exact absurd hold (hfirst id b')
    · rcases hmem hj' with hold' | ⟨-, rfl, rfl⟩
      · exact absurd hold' (hfirst id' b'')
      · exact ⟨rfl, rfl⟩
  · intro j id b' hj
    rcases hmem hj with hj | ⟨rfl, -, -⟩
    · exact h.answered j id b' hj
    · exact hsent
  · exact h.unanswered
  · intro j id b' hj
    rcases hmem hj with hj | ⟨rfl, -, -⟩
    · exact h.called j id b' hj
    · exact hlt
  · intro id hid
    exact (h.stopped id hid).imp (List.mem_append_left _) fun ⟨j, b', hj⟩ =>
      ⟨j, b', List.mem_append_left _ hj⟩
  · exact h.jobs
  · intro p hp
    obtain ⟨j, b', hj, houtcome⟩ := h.made p hp
    exact ⟨j, b', List.mem_append_left _ hj, houtcome⟩
  · intro j p houtcome
    obtain ⟨hp, b', hj⟩ := h.resolved j p houtcome
    exact ⟨hp, b', List.mem_append_left _ hj⟩
  · exact h.held
  · exact h.heard
  · intro j failure p hcaller houtcome
    obtain ⟨hnone, hstopped⟩ := isGone_iff.mp (h.rejected j failure p hcaller houtcome)
    obtain ⟨-, b', hj⟩ := h.resolved j p houtcome
    rw [isGone_iff]
    refine ⟨hnone, fun j' hj' => isStopped_of_append htrace (hstopped j' ?_)⟩
    refine (hmem hj').resolve_right fun heq => ?_
    exact hnew j b' (heq.2.1 ▸ hj)
  · intro j info' hop
    obtain ⟨rfl, rfl, houtcome, hcaller⟩ := hadopting j info' hop
    exact ⟨houtcome, hcaller, b, List.mem_append_right _ List.mem_cons_self⟩
  · exact halone
  · intro j id b' hj
    rcases hmem hj with hj | ⟨rfl, rfl, rfl⟩
    · rcases h.ends j id b' hj with hp | ⟨info, hop⟩ | hop | hstopped
      · exact Or.inl hp
      · cases hop
      · cases hop
      · exact Or.inr (Or.inr (Or.inr fun hb => isStopped_of_append htrace (hstopped hb)))
    · exact Or.inr (hends.imp_right (Or.imp_right fun hstopped hb =>
        isStopped_of_append htrace (hstopped hb)))

/-- An operation that no stream waits for is done. -/
theorem tail {op : Op} (h : Given s (op :: code)) (hop : op.isSetup = false) : Given s code :=
  { h with
    adopting := fun k info hmem => h.adopting k info (List.mem_cons_of_mem _ hmem)
    alone := by
      have halone := h.alone
      rwa [List.filter_cons_of_neg (by simp [hop])] at halone
    ends := fun k id b hk => by
      rcases h.ends k id b hk with hp | ⟨info, hmem⟩ | hmem | hstopped
      · exact Or.inl hp
      · rcases List.mem_cons.mp hmem with rfl | hmem
        · cases hop
        · exact Or.inr (Or.inl ⟨info, hmem⟩)
      · rcases List.mem_cons.mp hmem with rfl | hmem
        · cases hop
        · exact Or.inr (Or.inr (Or.inl hmem))
      · exact Or.inr (Or.inr (Or.inr hstopped)) }

/-- A stream that nobody waits for is stopped. -/
theorem orphaned {id : Str} (h : Given s (.orphaned k id :: code)) :
    Given (s.orphaned k id) code := by
  have hsent : Given (s.bestEffort (.stopstream id 0)) (.orphaned k id :: code) :=
    h.calm (.bestEffort s _)
  have hstopped : (s.orphaned k id).isStopped id = true :=
    isStopped_of_mem (o := .sent (.stopstream id 0)) (List.mem_append_right _ List.mem_cons_self)
      (by simp [Output.stops])
  exact
    { hsent with
      adopting := fun j info hop => hsent.adopting j info (List.mem_cons_of_mem _ hop)
      alone := Nat.le_of_succ_le hsent.alone
      ends := fun j id' b hj => by
        rcases hsent.ends j id' b hj with hp | ⟨info, hop⟩ | hop | hends
        · exact Or.inl hp
        · exact Or.inr (Or.inl ⟨info, (List.mem_cons.mp hop).resolve_left Op.noConfusion⟩)
        · rcases List.mem_cons.mp hop with heq | hop
          · rw [(Op.orphaned.inj heq).2]
            exact Or.inr (Or.inr (Or.inr fun _ => hstopped))
          · exact Or.inr (Or.inr (Or.inl hop))
        · exact Or.inr (Or.inr (Or.inr hends)) }

/-- Nothing is published under the id of a stream that is about to be. -/
theorem unpublished {info : StreamInfo} (h : Given s (.adopted k info :: code)) :
    s.published.get? info.id = none := by
  rw [Option.eq_none_iff_forall_ne_some]
  intro p hget
  obtain ⟨hpending, -, b, hk⟩ := h.adopting k info List.mem_cons_self
  obtain ⟨hp, hid⟩ := h.held _ p hget
  obtain ⟨j, b', hj, houtcome⟩ := h.made p hp
  obtain rfl := h.one j k _ b' b hj (hid ▸ hk)
  cases hpending.symm.trans houtcome

/-- A stream is published, and its call is given it. -/
theorem adopted {info : StreamInfo} (h : Given s (.adopted k info :: code)) :
    Given (s.adopted k info) code := by
  obtain ⟨hpending, hcaller, b, hk⟩ := h.adopting k info List.mem_cons_self
  have hnone := h.unpublished
  have hrest : ∀ op ∈ code, op.isSetup = false := by
    have halone := h.alone
    rw [List.filter_cons_of_pos rfl, List.length_cons, Nat.succ_le_succ_iff, Nat.le_zero,
      List.length_eq_zero_iff, List.filter_eq_nil_iff] at halone
    exact fun op hop => Bool.eq_false_iff.mpr (halone op hop)
  let t := (({ s with
      nextPub := s.nextPub + 1
      published := s.published.set info.id s.nextPub }.modifyPub s.nextPub fun _ =>
    { id := info.id }).modifyAttempt k fun attempt =>
      { attempt with outcome := attempt.outcome.settle (.resolved s.nextPub) }).setupDone k
  have hmade : s.adopted k info = t := by
    unfold Streams.adopted
    dsimp only
    rw [hnone]
  have hself : t.attempts k = { s.attempts k with outcome := .resolved s.nextPub } := by
    show (if k = k then { s.attempts k with
      outcome := (s.attempts k).outcome.settle (.resolved s.nextPub) } else s.attempts k) = _
    rw [if_pos rfl, hpending]
    rfl
  have hother : ∀ {j}, j ≠ k → t.attempts j = s.attempts j := fun hj => if_neg hj
  have hpub : (t.pubs s.nextPub).id = info.id := by
    show (if s.nextPub = s.nextPub then ({ id := info.id } : Published) else _).id = _
    rw [if_pos rfl]
  have hpubs : ∀ {p}, p < s.nextPub → t.pubs p = s.pubs p := fun hp => if_neg (Nat.ne_of_lt hp)
  rw [hmade]
  constructor
  · exact h.one
  · exact h.same
  · intro j id b' hj
    by_cases hjk : j = k
    · rw [hjk, hself]
      exact h.answered k info.id b hk
    · rw [hother hjk]
      exact h.answered j id b' hj
  · intro j hsending hreset
    by_cases hjk : j = k
    · rw [hjk, hself] at hsending
      cases (h.answered k info.id b hk).symm.trans hsending
    · rw [hother hjk] at hsending hreset ⊢
      exact h.unanswered j hsending hreset
  · exact h.called
  · exact h.stopped
  · exact fun p reason hmem => Nat.lt_succ_of_lt (h.jobs p reason hmem)
  · intro p hp
    rcases Nat.lt_succ_iff_lt_or_eq.mp hp with hp | rfl
    · obtain ⟨j, b', hj, houtcome⟩ := h.made p hp
      have hjk : j ≠ k := by
        rintro rfl
        cases hpending.symm.trans houtcome
      rw [hpubs hp]
      exact ⟨j, b', hj, (hother hjk) ▸ houtcome⟩
    · exact ⟨k, b, hpub ▸ hk, by rw [hself]⟩
  · intro j p houtcome
    by_cases hjk : j = k
    · rw [hjk, hself] at houtcome
      obtain rfl := Outcome.resolved.inj houtcome
      exact ⟨Nat.lt_succ_self _, b, by rw [hpub, hjk]; exact hk⟩
    · rw [hother hjk] at houtcome
      obtain ⟨hp, hj⟩ := h.resolved j p houtcome
      rw [hpubs hp]
      exact ⟨Nat.lt_succ_of_lt hp, hj⟩
  · intro id p hget
    change (s.published.set info.id s.nextPub).get? id = some p at hget
    rw [InsertionMap.get?_set] at hget
    split at hget
    · rename_i heq
      obtain rfl := Option.some.inj hget
      exact ⟨Nat.lt_succ_self _, hpub.trans heq⟩
    · obtain ⟨hp, hid⟩ := h.held id p hget
      rw [hpubs hp]
      exact ⟨Nat.lt_succ_of_lt hp, hid⟩
  · intro j p hresolved
    by_cases hjk : j = k
    · rw [hjk, hself] at hresolved
      cases hcaller.symm.trans hresolved
    · rw [hother hjk] at hresolved ⊢
      exact h.heard j p hresolved
  · intro j failure p hrejected houtcome
    by_cases hjk : j = k
    · rw [hjk, hself] at hrejected
      cases hcaller.symm.trans hrejected
    rw [hother hjk] at hrejected houtcome
    obtain ⟨hp, b', hj⟩ := h.resolved j p houtcome
    obtain ⟨hgone, hstopped⟩ := isGone_iff.mp (h.rejected j failure p hrejected houtcome)
    rw [hpubs hp, isGone_iff]
    refine ⟨?_, hstopped⟩
    show (s.published.set info.id s.nextPub).get? (s.pubs p).id = none
    rw [InsertionMap.get?_set, if_neg]
    · exact hgone
    · intro heq
      exact hjk (h.one j k _ b' b hj (heq ▸ hk))
  · intro j info' hop
    cases hrest _ hop
  · rw [List.filter_eq_nil_iff.mpr fun op hop => by simp [hrest op hop]]
    exact Nat.zero_le 1
  · intro j id b' hj
    by_cases hjk : j = k
    · exact Or.inl ⟨s.nextPub, by rw [hjk, hself]⟩
    rw [hother hjk]
    rcases h.ends j id b' hj with hp | ⟨info', hop⟩ | hop | hstopped
    · exact Or.inl hp
    · rcases List.mem_cons.mp hop with heq | hop
      · exact absurd (Op.adopted.inj heq).1 hjk
      · cases hrest _ hop
    · rcases List.mem_cons.mp hop with heq | hop
      · cases heq
      · cases hrest _ hop
    · exact Or.inr (Or.inr (Or.inr hstopped))

/-! ### The answers -/

theorem done (h : Given s code) (k : CallID) : Given (s.setupDone k) code := { h with }

theorem refused (h : Given s []) (hsent : (s.attempts k).sending = false) (failure : Failure) :
    Given (s.rejectOutcome k failure) [] := by
  rw [Streams.rejectOutcome]
  refine h.modifyAttempt k (h.answered k) (fun hsending => ?_) (fun _ => settle_rejected_iff)
    (h.heard k) (h.rejected k) fun info hop => absurd hop List.not_mem_nil
  cases hsent.symm.trans hsending

theorem setupInfo (h : Given s []) (hlt : k < s.nextCall) (hsent : (s.attempts k).sending = false)
    (hfirst : ∀ id b, .announced k id b ∉ s.trace)
    (hpending : (s.attempts k).reset = false → (s.attempts k).outcome = .pending)
    (info : Option StreamInfo)
    (hinfo : ∀ i, info = some i → s.trace.any (Output.names i.id) = false ∧
      ((s.attempts k).reset || (s.attempts k).abandoned || i.id ∈ s.stopped ||
        !(s.attempts k).caller.isRejected) = true) :
    Given (s.setupInfo k info).1 (s.setupInfo k info).2 := by
  cases info with
  | none =>
    rw [Streams.setupInfo]
    split
    · exact h.done k
    · exact (h.refused hsent .noStream).done k
  | some info =>
    obtain ⟨hunnamed, hmay⟩ := hinfo info rfl
    have hnew : ∀ k b, .announced k info.id b ∉ s.trace := by
      intro j b hj
      refine List.any_eq_false.mp hunnamed _ hj ?_
      simp [Output.names]
    rw [Streams.setupInfo]
    dsimp only
    split
    · split
      · -- the stop is what `#orphan` sends
        have horphan : Given (s.emit (.announced k info.id s.connected)) [.orphaned k info.id] :=
          h.announced info _ hlt hsent hfirst hnew (Nat.le_refl 1)
            (fun _ _ hop => by cases List.mem_singleton.mp hop)
            (Or.inr (Or.inl List.mem_cons_self))
        exact horphan.orphaned
      · rename_i hconnected
        have hannounced : Given (s.emit (.announced k info.id s.connected)) [] :=
          h.announced info _ hlt hsent hfirst hnew (Nat.zero_le 1)
            (fun _ _ hop => absurd hop List.not_mem_nil)
            (Or.inr (Or.inr fun hb => absurd hb hconnected))
        exact hannounced.done k
    rename_i hreset
    rw [Bool.not_eq_true] at hreset
    split
    · let noted : Streams := { s.emit (.announced k info.id s.connected) with
        orphans := remember maxOrphans info.id s.orphans }
      have horphan : Given (s.emit (.announced k info.id s.connected)) [.orphaned k info.id] :=
        h.announced info _ hlt hsent hfirst hnew (Nat.le_refl 1)
          (fun _ _ hop => by cases List.mem_singleton.mp hop) (Or.inr (Or.inl List.mem_cons_self))
      have hnoted : Given noted [.orphaned k info.id] := { horphan with }
      have hended : Calm noted (noted.endStream info.id .stopped 0) :=
        (Calm.refl noted).endStream info.id 0 fun _ =>
          Or.inr (Or.inl ⟨k, s.connected, List.mem_append_right _ List.mem_cons_self⟩)
      exact hnoted.calm hended
    rename_i habandoned
    rw [Bool.not_eq_true] at habandoned
    split
    · rename_i hstopped
      have hreported : s.isStopped info.id = true := by
        rcases h.stopped info.id hstopped with hmem | ⟨j, b, hj⟩
        · exact isStopped_of_mem hmem (by simp [Output.stops])
        · exact absurd hj (hnew j b)
      have hannounced : Given (s.emit (.announced k info.id s.connected)) [] :=
        h.announced info _ hlt hsent hfirst hnew (Nat.zero_le 1)
          (fun _ _ hop => absurd hop List.not_mem_nil) (Or.inr (Or.inr fun _ => hreported))
      exact (hannounced.refused hsent .streamEnded).done k
    · rename_i hrunning
      change info.id ∉ s.stopped at hrunning
      have hcaller : (s.attempts k).caller = .pending := by
        have hwaits : ¬(s.attempts k).caller.isRejected = true := by
          intro hrejected
          rw [hreset, habandoned, hrejected, decide_eq_false hrunning] at hmay
          cases hmay
        cases hc : (s.attempts k).caller with
        | pending => rfl
        | resolved p => cases (hpending hreset).symm.trans (h.heard k p hc)
        | rejected failure =>
          rw [hc] at hwaits
          exact absurd rfl hwaits
      have hadopt : Given (s.emit (.announced k info.id s.connected)) [.adopted k info] :=
        h.announced info _ hlt hsent hfirst hnew (Nat.le_refl 1)
          (fun k' info' hop => by
            obtain ⟨rfl, rfl⟩ := Op.adopted.inj (List.mem_singleton.mp hop)
            exact ⟨rfl, rfl, hpending hreset, hcaller⟩)
          (Or.inl ⟨info, List.mem_cons_self⟩)
      exact hadopt.calm (.learn _ info)

theorem setup (h : Given s []) (k : CallID) (result : Except Failure (List Params))
    (hlt : (s.attempts k).sending = true → k < s.nextCall)
    (hmay : ∀ rows, result = .ok rows → (s.attempts k).sending = true →
      s.mayAnswer k rows = true) : Given (s.setup k result).1 (s.setup k result).2 := by
  rw [Streams.setup]
  split
  · exact h
  rename_i hsending
  rw [Bool.not_eq_false] at hsending
  let t := s.modifyAttempt k fun attempt => { attempt with sending := false }
  have hself : t.attempts k = { s.attempts k with sending := false } := if_pos rfl
  have hanswered : Given t [] := by
    refine h.modifyAttempt k (fun _ _ _ => rfl) (fun hsending => ?_) (fun _ => Iff.rfl) (h.heard k)
      (h.rejected k) fun info hop => absurd hop List.not_mem_nil
    cases hsending
  have hsent : (t.attempts k).sending = false := by rw [hself]
  have hpending : (t.attempts k).reset = false → (t.attempts k).outcome = .pending := by
    rw [hself]
    exact h.unanswered k hsending
  have hfirst : ∀ id b, .announced k id b ∉ s.trace := fun id b hk => by
    cases (h.answered k id b hk).symm.trans hsending
  cases result with
  | error failure => exact (hanswered.refused hsent failure).done k
  | ok rows =>
    refine hanswered.setupInfo (hlt hsending) hsent hfirst hpending _ fun info hinfo => ?_
    have hanswers := hmay rows rfl hsending
    rw [Streams.mayAnswer, show s.infoOf rows = some info from hinfo] at hanswers
    rw [hself]
    rwa [Bool.and_eq_true, Bool.not_eq_true'] at hanswers

/-! ### Disposing, and the steps -/

/-- `#reset`, while no stream is being adopted. -/
theorem reset (h : Given s code) (hnone : ∀ k info, Op.adopted k info ∉ code)
    (hwaiting : ∀ k, (s.attempts k).sending = true →
      (s.attempts k).reset = true ∨ k ∈ s.publishing)
    (gone : Failure) (ended : EndCause) (cause : PeerCloseCause) :
    Given (s.reset gone ended cause).1 ((s.reset gone ended cause).2 ++ code) := by
  obtain ⟨attempts, hattempts, hcalm⟩ := Calm.reset s gone ended cause
  refine calm ?_ hcalm
  constructor
  · exact h.one
  · exact h.same
  · exact fun k id b hk => (hattempts k).1.sending.trans (h.answered k id b hk)
  · intro k hsending hreset
    obtain ⟨hof, hpublishing⟩ := hattempts k
    cases hreset.symm.trans ((hwaiting k (hof.sending ▸ hsending)).elim hof.reset hpublishing)
  · exact h.called
  · exact h.stopped
  · exact h.jobs
  · intro p hp
    obtain ⟨k, b, hk, houtcome⟩ := h.made p hp
    exact ⟨k, b, hk, ((hattempts k).1.resolved p).mpr houtcome⟩
  · exact fun k p houtcome => h.resolved k p (((hattempts k).1.resolved p).mp houtcome)
  · intro id p hget
    cases hget
  · intro k p hcaller
    refine ((hattempts k).1.resolved p).mpr (h.heard k p ?_)
    exact (hattempts k).1.caller.symm.trans hcaller
  · intro k failure p hcaller houtcome
    have hgone := h.rejected k failure p ((hattempts k).1.caller.symm.trans hcaller)
      (((hattempts k).1.resolved p).mp houtcome)
    exact isGone_iff.mpr ⟨rfl, (isGone_iff.mp hgone).2⟩
  · exact fun k info hop => absurd hop (hnone k info)
  · exact h.alone
  · intro k id b hk
    exact (h.ends k id b hk).imp_left fun ⟨p, houtcome⟩ =>
      ⟨p, ((hattempts k).1.resolved p).mpr houtcome⟩

theorem call (h : Given s code) (hsetups : Setups s code) (hopen : program.open_ code = true)
    {k : Call} (hprompt : prompt ⟨s, code⟩ (.call k) = true) :
    Given (Streams.call k s).1 ((Streams.call k s).2 ++ code) := by
  by_cases hk : Calm.ofCall k = true
  · cases k with
    | publish => exact h.publish
    | giveUp k failure =>
      rw [Streams.call]
      split
      · rename_i hlt
        refine h.giveUp k failure ?_
        change (!program.open_ code || decide (s.nextCall ≤ k) || s.mayGiveUp code k) = true
          at hprompt
        rwa [hopen, decide_eq_false (Nat.not_le.mpr hlt), Bool.not_true, Bool.false_or,
          Bool.false_or] at hprompt
      · exact h
    | watch target aborted => exact h.watch target aborted
    | dispose =>
      change Given s.dispose.1 (s.dispose.2 ++ code)
      rw [Streams.dispose]
      split
      · exact h
      · have hdisposed : Given { s with disposed := true } code := { h with }
        exact hdisposed.reset (not_mem_of_dispose hopen hprompt)
          (fun j hj => (hsetups.waiting j hj).2) _ _ _
    | _ => cases hk
  · exact h.calm (.call s (Bool.eq_false_iff.mpr hk))

theorem event (h : Given s []) (hsetups : Setups s []) {e : Event}
    (hprompt : prompt ⟨s, []⟩ (.event e) = true) :
    Given (Streams.event e s).1 (Streams.event e s).2 := by
  by_cases he : Calm.ofEvent e = true
  · cases e with
    | setup k result =>
      refine h.setup k result (fun hsending => (hsetups.waiting k hsending).1)
        fun rows hrows hsending => ?_
      rw [hrows] at hprompt
      change (!true || !(s.attempts k).sending || s.mayAnswer k rows) = true at hprompt
      rwa [hsending] at hprompt
    | heard k => exact h.hears k
    | noted k => exact h.noted k
    | disconnected =>
      change Given (s.subscribed s.disconnected).1 (s.subscribed s.disconnected).2
      rw [Streams.subscribed]
      split
      · exact h
      · have hreset := h.reset (fun _ _ hop => absurd hop List.not_mem_nil)
          (fun j hj => (hsetups.waiting j hj).2) .notConnected .disconnected .disconnected
        rwa [List.append_nil] at hreset
    | _ => cases he
  · have hcalm := h.calm (.event s (Bool.eq_false_iff.mpr he))
    rwa [List.append_nil] at hcalm

theorem exec {op : Op} (h : Given s (op :: code)) :
    Given (Streams.exec op s).1 ((Streams.exec op s).2 ++ code) := by
  by_cases hop : op.isSetup = true
  · cases op with
    | adopted k info => exact h.adopted
    | orphaned k id => exact h.orphaned
    | _ => cases hop
  · exact (h.tail (Bool.eq_false_iff.mpr hop)).calm (.exec s (Bool.eq_false_iff.mpr hop))

end Given

theorem given_kept : program.Kept (prompt · ·) fun s code => Setups s code ∧ Given s code where
  event _ _ hl h := ⟨h.1.event _, h.2.event h.1 hl⟩
  call k s rest hopen hl h := by
    refine ⟨h.1.call ?_, h.2.call h.1 hopen hl⟩
    rintro rfl
    exact not_mem_of_dispose hopen hl
  exec _ _ _ _ h := ⟨h.1.exec, h.2.exec⟩

theorem given_new (rememberDenied connected supported : Bool) (self : ClientID)
    (view : ClientID → Option Identity) (streaming : List ClientID) :
    Given (.new rememberDenied connected supported self view streaming) [] := by
  have hfirst : Given { rememberDenied, connected, supported, self, view } [] :=
    { one := fun _ _ _ _ _ hk => absurd hk List.not_mem_nil
      same := fun _ _ _ _ _ hk => absurd hk List.not_mem_nil
      answered := fun _ _ _ hk => absurd hk List.not_mem_nil
      unanswered := fun _ _ _ => rfl
      called := fun _ _ _ hk => absurd hk List.not_mem_nil
      stopped := fun _ hid => absurd hid List.not_mem_nil
      jobs := fun _ _ hmem => absurd hmem List.not_mem_nil
      made := fun p hp => absurd hp (Nat.not_lt_zero p)
      resolved := fun _ _ houtcome => by cases houtcome
      held := fun _ _ hget => by cases hget
      heard := fun _ _ hcaller => by cases hcaller
      rejected := fun _ _ _ hcaller => by cases hcaller
      adopting := fun _ _ hop => absurd hop List.not_mem_nil
      alone := Nat.zero_le 1
      ends := fun _ _ _ hk => absurd hk List.not_mem_nil }
  rw [Streams.new]
  split
  · exact hfirst.calm (.foldl .discover streaming _)
  · exact hfirst

/-! ### The result -/

theorem Given.unpublished_of_rejected {s : Streams} {code : List Op} (h : Given s code) {k : CallID}
    {failure : Failure} {id : Str} {b : Bool}
    (hcaller : (s.attempts k).caller = .rejected failure) (hk : .announced k id b ∈ s.trace) :
    s.published.get? id = none := by
  rw [Option.eq_none_iff_forall_ne_some]
  intro p hget
  obtain ⟨hp, hid⟩ := h.held id p hget
  obtain ⟨j, b', hj, houtcome⟩ := h.made p hp
  rw [hid] at hj
  obtain rfl := h.one j k id b' b hj hk
  have hnone := (isGone_iff.mp (h.rejected j failure p hcaller houtcome)).1
  rw [hid] at hnone
  cases hnone.symm.trans hget

/-- Between turns the stream of a call that rejected has been stopped. -/
theorem Given.stopped_of_rejected {s : Streams} (h : Given s []) {k : CallID} {failure : Failure}
    {id : Str} (hcaller : (s.attempts k).caller = .rejected failure)
    (hk : .announced k id true ∈ s.trace) : s.isStopped id = true := by
  rcases h.ends k id true hk with ⟨p, houtcome⟩ | ⟨info, hop⟩ | hop | hstopped
  · obtain ⟨-, b, hj⟩ := h.resolved k p houtcome
    obtain ⟨hid, -⟩ := h.same k id _ true b hk hj
    have hgone := (isGone_iff.mp (h.rejected k failure p hcaller houtcome)).2
    rw [hid] at hk ⊢
    exact hgone k hk
  · cases hop
  · cases hop
  · exact hstopped rfl

/-- Two calls that have streams of one id are one. -/
theorem Given.eq_of_resolved {s : Streams} {code : List Op} (h : Given s code) {k k' : CallID}
    {p p' : PubID} (hcaller : (s.attempts k).caller = .resolved p)
    (hcaller' : (s.attempts k').caller = .resolved p') (hid : (s.pubs p').id = (s.pubs p).id) :
    k' = k := by
  obtain ⟨-, b, hk⟩ := h.resolved k p (h.heard k p hcaller)
  obtain ⟨-, b', hk'⟩ := h.resolved k' p' (h.heard k' p' hcaller')
  exact h.one k' k _ b' b hk' (hid ▸ hk)

/-- **No stream without its caller**: in every prompt run, a stream that answered a call which
rejected is not published, and between turns it has been stopped if its answer came in a
connection, or was reported so; and the stream of a call that resolved is the one it started,
and no other call's. -/
theorem publish_given (rememberDenied connected supported : Bool) (self : ClientID)
    (view : ClientID → Option Identity) (streaming : List ClientID) (ls : List (Label Call Event))
    (hls : Along program.step (prompt · ·)
      ⟨.new rememberDenied connected supported self view streaming, []⟩ ls) :
    let c := run program.step ⟨.new rememberDenied connected supported self view streaming, []⟩ ls
    (∀ k failure id b, (c.state.attempts k).caller = .rejected failure →
      .announced k id b ∈ c.state.trace →
        c.state.published.get? id = none ∧
          (c.code = [] → b = true → c.state.isStopped id = true)) ∧
      ∀ k p, (c.state.attempts k).caller = .resolved p →
        (∃ b, .announced k (c.state.pubs p).id b ∈ c.state.trace) ∧
          ∀ k' p', (c.state.attempts k').caller = .resolved p' →
            (c.state.pubs p').id = (c.state.pubs p).id → k' = k := by
  intro c
  have hnew := And.intro (setups_new rememberDenied connected supported self view streaming)
    (given_new rememberDenied connected supported self view streaming)
  have hc : Given c.state c.code := (Program.run_kept given_kept hnew hls).2
  refine ⟨fun k failure id b hcaller hk => ⟨hc.unpublished_of_rejected hcaller hk, ?_⟩,
    fun k p hcaller => ⟨?_, fun k' p' hcaller' hid => hc.eq_of_resolved hcaller hcaller' hid⟩⟩
  · rintro hcode rfl
    rw [hcode] at hc
    exact hc.stopped_of_rejected hcaller hk
  · exact (hc.resolved k p (hc.heard k p hcaller)).2

/-- A caller gives up, and the answer that comes then stops its stream. -/
theorem publish_given_late :
    let c := run program.step ⟨.new false true true 1 (fun _ => none) [], []⟩
      [.call .publish, .call (.giveUp 0 .timedOut), .event (.noted 0),
        .event (.setup 0 (.ok [InsertionMap.empty.set (.of "id") (.of "a")])), .go, .go, .go]
    c.code = [] ∧ (c.state.attempts 0).caller = .rejected .timedOut ∧
      c.state.published.get? (.of "a") = none ∧ c.state.isStopped (.of "a") = true := by
  refine ⟨by decide, by decide, ?_⟩
  obtain ⟨hnone, hstopped⟩ := (publish_given false true true 1 (fun _ => none) []
    [.call .publish, .call (.giveUp 0 .timedOut), .event (.noted 0),
      .event (.setup 0 (.ok [InsertionMap.empty.set (.of "id") (.of "a")])), .go, .go, .go]
    (by decide)).1 0 .timedOut (.of "a") true (by decide) (by decide)
  exact ⟨hnone, hstopped (by decide) rfl⟩

/-- A listener of `started`, which `#adopt` runs before the stream is published, has the caller
give up: the stream stays published, and no stop is sent. -/
theorem published_without_caller :
    let c := run program.step ⟨.new false true true 1 (fun _ => none) [], []⟩
      [.call .publish, .event (.setup 0 (.ok [InsertionMap.empty.set (.of "id") (.of "a")])),
        .call (.giveUp 0 .aborted), .go, .go, .event (.heard 0), .event (.noted 0)]
    c.code = [] ∧ (c.state.attempts 0).caller = .rejected .aborted ∧
      .announced 0 (.of "a") true ∈ c.state.trace ∧
      c.state.published.get? (.of "a") = some 0 ∧ c.state.isStopped (.of "a") = false :=
  ⟨by decide, by decide, by decide, by decide, by decide⟩

end Teamspeak.Stream
