import Teamspeak.Client.Lifecycle.Effects

/-!
# What the reconnect loop goes by

`Pursuit` is what of a client says whether it connects again: whether it was stopped, where the
loop is and what it was answered, and whose call each attempt is.  Nearly every function is
`Steady`: it leaves all that as it is.  What is not is the end of a connection, `Failed` or
`Dropped`, a call that goes on (`Proceeds`), `disconnect()`, and the loop's own `Rounds`.

* `advances_happen`: what each step does to it.
-/

namespace Teamspeak.Client

/-- Nothing that the loop is about: it asks nothing, attempts nothing, and tells of no
connection that has failed or dropped. -/
def Shown.isAside : Shown → Bool
  | .asked _ _ | .retried _ | .queued (.disconnected _ (some _) _)
  | .queued (.disconnected _ none true) => false
  | _ => true

/-- An error, and none that ends the loop by itself or is not told as it is. -/
def ClientError.isPlain : ClientError → Bool
  | .made .alreadyConnected _ | .made (.wrapped _) _ | .value _ => false
  | _ => true

theorem ClientError.asError_of_isPlain {error : ClientError} (h : error.isPlain) (clock : Nat) :
    error.asError clock = error := by
  cases error with
  | value v => cases h
  | made => rfl
  | other => rfl

/-- Of every link and every call: its number, and whether it is of the loop; of a call also its
attempt, and how many disconnects there were when it was made, until it has begun. -/
@[ext]
structure Pursuit where
  reconnect : Option ReconnectOptions
  addressable : Bool
  link : LinkID
  stopped : Bool
  disconnects : Nat
  loop : Option Loop
  loopAttempt : Nat
  retryAnswer : Option RetryAnswer
  lastDrop : Option ClientError
  attempt : LinkID → Nat × Bool
  call : ConnectID → Nat × Bool
  callLink : ConnectID → LinkID
  since : ConnectID → Option Nat

namespace Lifecycle

def pursuit (c : Lifecycle) : Pursuit where
  reconnect := c.reconnect
  addressable := c.addressable
  link := c.link
  stopped := c.stopped
  disconnects := c.disconnects
  loop := c.loop
  loopAttempt := c.loopAttempt
  retryAnswer := c.retryAnswer
  lastDrop := c.lastDrop
  attempt a := ((c.links a).number, (c.links a).reconnect)
  call k := ((c.connects k).number, (c.connects k).reconnect)
  callLink k := (c.connects k).link
  since k := (c.connects k).waiting.disconnects?

variable {c c' c'' : Lifecycle} {p : Prop}

/-- More is shown, none of it the loop's. -/
def Aside (c c' : Lifecycle) : Prop := ∃ l, c'.trace = c.trace ++ l ∧ ∀ shown ∈ l, shown.isAside

theorem Aside.refl (c : Lifecycle) : Aside c c :=
  ⟨[], (List.append_nil _).symm, fun _ hin => absurd hin List.not_mem_nil⟩

theorem Aside.of_eq (h : c'.trace = c.trace) : Aside c c' :=
  ⟨[], h.trans (List.append_nil _).symm, fun _ hin => absurd hin List.not_mem_nil⟩

theorem Aside.trans (h : Aside c c') (h' : Aside c' c'') : Aside c c'' := by
  obtain ⟨l, htrace, haside⟩ := h
  obtain ⟨m, htrace', haside'⟩ := h'
  refine ⟨l ++ m, ?_, ?_⟩
  · rw [htrace', htrace, List.append_assoc]
  · intro shown hin
    exact (List.mem_append.mp hin).elim (haside shown) (haside' shown)

theorem aside_tell {shown : Shown} (h : shown.isAside) : Aside c (c.tell shown) :=
  ⟨[shown], rfl, fun _ hx => List.mem_singleton.mp hx ▸ h⟩

/-- All that the loop goes by is as it was. -/
structure Steady (c c' : Lifecycle) : Prop where
  pursuit : c'.pursuit = c.pursuit
  aside : Aside c c'
  down : c'.status = .disconnected ↔ c.status = .disconnected

theorem Steady.refl (c : Lifecycle) : Steady c c := ⟨rfl, .refl c, Iff.rfl⟩

theorem Steady.trans (h : Steady c c') (h' : Steady c' c'') : Steady c c'' :=
  ⟨h'.pursuit.trans h.pursuit, h.aside.trans h'.aside, h'.down.trans h.down⟩

/-- Only other fields change. -/
theorem Steady.of_eq (hpursuit : c'.pursuit = c.pursuit) (htrace : c'.trace = c.trace)
    (hs : c'.status = c.status) : Steady c c' :=
  ⟨hpursuit, .of_eq htrace, by rw [hs]⟩

theorem steady_tell {shown : Shown} (h : shown.isAside) : Steady c (c.tell shown) :=
  ⟨rfl, aside_tell h, Iff.rfl⟩

theorem steady_enqueue {delivery : Queued} (h : (Shown.queued delivery).isAside) :
    Steady c (c.enqueue delivery) :=
  ⟨rfl, aside_tell (c := { c with queue := c.queue ++ [delivery] }) h, Iff.rfl⟩

theorem steady_updateView (op : ViewStore.Op ClientError) : Steady c (c.updateView op) :=
  .of_eq rfl rfl rfl

theorem pursuit_modifyLink (a : LinkID) {f : Link → Link}
    (hf : ∀ link, (f link).number = link.number ∧ (f link).reconnect = link.reconnect) :
    (c.modifyLink a f).pursuit = c.pursuit := by
  have hsame : (c.modifyLink a f).pursuit.attempt = c.pursuit.attempt := by
    funext b
    show (((c.modifyLink a f).links b).number, ((c.modifyLink a f).links b).reconnect) = _
    rw [links_modifyLink]
    split
    · rename_i h
      rw [(hf _).1, (hf _).2, h]
      rfl
    · rfl
  show { c.pursuit with attempt := (c.modifyLink a f).pursuit.attempt } = _
  rw [hsame]

theorem steady_modifyLink (a : LinkID) {f : Link → Link}
    (hf : ∀ link, (f link).number = link.number ∧ (f link).reconnect = link.reconnect) :
    Steady c (c.modifyLink a f) :=
  .of_eq (pursuit_modifyLink a hf) rfl rfl

/-- A call that does not wait for what comes before its attempt, and goes on. -/
theorem pursuit_modifyConnect (k : ConnectID) {f : Connecting → Connecting}
    (hf : ∀ call, (f call).number = call.number ∧ (f call).reconnect = call.reconnect ∧
      (f call).link = call.link)
    (hw : (f (c.connects k)).waiting.disconnects? = (c.connects k).waiting.disconnects?) :
    (c.modifyConnect k f).pursuit = c.pursuit := by
  have hcall : ∀ j, (c.modifyConnect k f).pursuit.call j = c.pursuit.call j ∧
      (c.modifyConnect k f).pursuit.callLink j = c.pursuit.callLink j ∧
      (c.modifyConnect k f).pursuit.since j = c.pursuit.since j := by
    intro j
    simp only [pursuit, connects_modifyConnect]
    split
    · rename_i h
      obtain ⟨hnumber, hreconnect, hlink⟩ := hf (c.connects k)
      rw [hnumber, hreconnect, hlink, hw, h]
      exact ⟨rfl, rfl, rfl⟩
    · exact ⟨rfl, rfl, rfl⟩
  show { c.pursuit with
      call := (c.modifyConnect k f).pursuit.call
      callLink := (c.modifyConnect k f).pursuit.callLink
      since := (c.modifyConnect k f).pursuit.since } = _
  rw [funext fun j => (hcall j).1, funext fun j => (hcall j).2.1, funext fun j => (hcall j).2.2]

theorem steady_closeHandler : Steady c c.closeHandler := steady_modifyLink _ fun _ => ⟨rfl, rfl⟩

theorem steady_abortDown : Steady c c.abortDown := steady_modifyLink _ fun _ => ⟨rfl, rfl⟩

/-! ### Attempts and sessions -/

theorem steady_failAttempt : Steady c c.failAttempt := by
  rw [failAttempt]
  refine Steady.trans ?_ (steady_modifyLink _ fun _ => ⟨rfl, rfl⟩)
  split
  · exact steady_tell rfl
  · exact .refl c

theorem steady_reject (error : ClientError) : Steady c (c.reject error) := by
  rw [reject]
  split
  · exact .refl c
  · exact steady_failAttempt.trans (steady_modifyLink _ fun _ => ⟨rfl, rfl⟩)

theorem steady_rejectAfter : Steady c c.rejectAfter := by
  rw [rejectAfter]
  split
  · exact .refl c
  · exact steady_failAttempt

theorem steady_endSession (cause : Cause ClientError) : Steady c (c.endSession cause) := by
  simp only [endSession]
  split
  · exact steady_updateView _
  · have hsame : Steady c { c.updateView (.end_ cause) with session := none } := .of_eq rfl rfl rfl
    exact hsame.trans (steady_tell rfl)

theorem steady_resolve : Steady c c.resolve := by
  refine steady_modifyLink _ fun link => ?_
  split <;> exact ⟨rfl, rfl⟩

theorem steady_startSession : Steady c c.startSession := by
  rw [startSession]
  split
  · have hsame : Steady c { c with session := some c.link } := .of_eq rfl rfl rfl
    exact hsame.trans (steady_tell rfl)
  · exact .refl c

theorem steady_markConnected : Steady c c.markConnected := by
  rw [markConnected]
  split
  · exact .refl c
  · rename_i hconnecting
    rw [not_or, not_not] at hconnecting
    have hup : Steady c { c with status := .connected } := ⟨rfl, .refl c, by simp [hconnecting.1]⟩
    exact ((hup.trans steady_resolve).trans steady_startSession).trans (steady_enqueue rfl)

/-! ### The end of a connection -/

/-- The answer to attempt `n` after `err`: none is asked for, or it was asked before, or it is
now. -/
inductive Answered (c : Lifecycle) (err : ClientError) (n : Nat) : Lifecycle → Bool → Prop
  | barred (h : c.reconnect = none ∨ c.stopped = true ∨
      ∃ options, c.reconnect = some options ∧ options.policy.maxAttempts ≠ 0 ∧
        options.policy.maxAttempts < n) : Answered c err n c false
  | known (w : Bool) (options : ReconnectOptions) (ho : c.reconnect = some options)
      (hs : c.stopped = false)
      (hn : options.policy.maxAttempts = 0 ∨ n ≤ options.policy.maxAttempts)
      (h : c.retryAnswer = some ⟨err, n, w⟩) : Answered c err n c w
  | asks (options : ReconnectOptions) (ho : c.reconnect = some options) (hs : c.stopped = false)
      (hn : options.policy.maxAttempts = 0 ∨ n ≤ options.policy.maxAttempts)
      (hnew : ∀ w, c.retryAnswer ≠ some ⟨err, n, w⟩) :
      Answered c err n
        ({ c with
          retryAnswer :=
            some ⟨err, n, (options.shouldRetry err n c.trace.length).getD false⟩ }.tell
          (.asked err n))
        ((options.shouldRetry err n c.trace.length).getD false)

theorem answered_willReconnect (err : ClientError) (n : Nat) :
    Answered c err n (c.willReconnect err n).1 (c.willReconnect err n).2 := by
  rw [willReconnect]
  split
  · rename_i ho
    exact .barred (Or.inl ho)
  · rename_i options ho
    split
    · rename_i hstopped
      exact .barred (Or.inr (Or.inl hstopped))
    · rename_i hs
      rw [Bool.not_eq_true] at hs
      split
      · rename_i hbeyond
        exact .barred (Or.inr (Or.inr ⟨options, ho, hbeyond⟩))
      · rename_i hwithin
        have hn : options.policy.maxAttempts = 0 ∨ n ≤ options.policy.maxAttempts := by
          by_contra hnot
          rw [not_or, not_le] at hnot
          exact hwithin hnot
        dsimp only
        split
        · rename_i answer hanswer
          rw [Option.filter_eq_some_iff, decide_eq_true_eq] at hanswer
          obtain ⟨hsome, rfl, rfl⟩ := hanswer
          exact .known answer.retry options ho hs hn hsome
        · rename_i hnone
          rw [Option.filter_eq_none_iff] at hnone
          refine .asks options ho hs hn fun w hw => ?_
          exact hnone _ hw (decide_eq_true ⟨rfl, rfl⟩)

/-- Nothing but what was asked and answered changes. -/
theorem Answered.same {err : ClientError} {n : Nat} {w : Bool} (h : Answered c err n c' w) :
    ∃ answer l, c' = { c with retryAnswer := answer, trace := c.trace ++ l } := by
  cases h with
  | barred => exact ⟨_, [], by rw [List.append_nil]⟩
  | known => exact ⟨_, [], by rw [List.append_nil]⟩
  | asks => exact ⟨_, _, rfl⟩

/-- The policy is asked only where `p` holds. -/
theorem answered_ite_willReconnect (p : Prop) [Decidable p] (err : ClientError) (n : Nat) :
    (if p then Answered c err n (if p then c.willReconnect err n else (c, false)).1
        (if p then c.willReconnect err n else (c, false)).2
      else (if p then c.willReconnect err n else (c, false)).1 = c ∧
        (if p then c.willReconnect err n else (c, false)).2 = false) ∧
      (if p then c.willReconnect err n else (c, false)).1.status = c.status := by
  by_cases hp : p
  · simp only [if_pos hp]
    have hanswered := answered_willReconnect (c := c) err n
    refine ⟨hanswered, ?_⟩
    obtain ⟨answer, l, heq⟩ := hanswered.same
    rw [heq]
  · simp [hp]

/-- A round of the loop for attempt `n`: it sleeps before the attempt, or is over. -/
def Rounds (c : Lifecycle) (err : ClientError) (n : Nat) (c' : Lifecycle) : Prop :=
  ∃ d w, Answered c err n d w ∧ c' = if w then { d with loop := some ⟨n, none⟩ } else d.endLoop

theorem rounds_round (err : ClientError) (n : Nat) : Rounds c err n (c.round err n) := by
  rw [round]
  split
  · rename_i ho
    exact ⟨c, false, .barred (Or.inl ho), rfl⟩
  · rename_i options ho
    split
    · rename_i hbeyond
      exact ⟨c, false, .barred (Or.inr (Or.inr ⟨options, ho, hbeyond⟩)), rfl⟩
    · split
      · rename_i hstopped
        exact ⟨c, false, .barred (Or.inr (Or.inl hstopped)), rfl⟩
      · exact ⟨_, _, answered_willReconnect err n, rfl⟩

theorem rounds_scheduleReconnect (err : ClientError) :
    c.scheduleReconnect err = c ∧ (c.loop.isSome ∨ c.reconnect = none ∨ c.stopped = true) ∨
      c.loop = none ∧ Rounds c err 1 (c.scheduleReconnect err) := by
  rw [scheduleReconnect]
  split
  · rename_i hnot
    rw [Option.isNone_iff_eq_none] at hnot
    left
    refine ⟨rfl, ?_⟩
    rcases hnot with ho | hstopped | hloop
    · exact Or.inr (Or.inl ho)
    · exact Or.inr (Or.inr hstopped)
    · exact Or.inl hloop
  · rename_i hstarts
    rw [not_or, not_or, Option.not_isSome_iff_eq_none] at hstarts
    exact Or.inr ⟨hstarts.2.2, rounds_round err 1⟩

/-- A round changes no status. -/
theorem Rounds.status {err : ClientError} {n : Nat} (h : Rounds c err n c') :
    c'.status = c.status := by
  obtain ⟨d, w, hanswered, rfl⟩ := h
  obtain ⟨answer, l, rfl⟩ := hanswered.same
  cases w <;> rfl

/-- The attempt has failed by `cause`, and `disconnected` told `w`, which was asked for if the
loop is there. -/
structure Failed (p : Prop) (c c' : Lifecycle) (cause : ClientError) (w : Bool) : Prop where
  plain : p → cause.isPlain
  status : c.status = .connecting
  down : c'.status = .disconnected
  told : ∃ d e : Lifecycle, Aside c d ∧ .attemptFailed c.link ∈ d.trace ∧ d.pursuit = c.pursuit ∧
    (if c.loop.isSome then Answered d cause (c.loopAttempt + 1) e w else e = d ∧ w = false) ∧
    c'.trace = e.trace ++ [.queued (.disconnected c.link (some cause) w)] ∧
    c'.pursuit = e.pursuit

/-- The session has dropped by `cause`, and `disconnected` told `w`; the loop begins if it is
not there. -/
structure Dropped (p : Prop) (c c' : Lifecycle) (cause : ClientError) (w : Bool) : Prop where
  plain : p → cause.isPlain
  status : c.status = .connected
  down : c'.status = .disconnected
  told : ∃ d e f : Lifecycle, Aside c d ∧ d.pursuit = { c.pursuit with lastDrop := some cause } ∧
    Answered d cause (c.loopAttempt + 1) e w ∧
    f.trace = e.trace ++ [.queued (.disconnected c.link (some cause) w)] ∧
    f.pursuit = e.pursuit ∧
    (c' = f ∧ (c.loop.isSome ∨ c.reconnect = none ∨ c.stopped = true) ∨
      c.loop = none ∧ Rounds f cause 1 c')

/-- What may become of a connection but for its next attempt; with `p` it ends by plain errors. -/
inductive Pursues (p : Prop) (c c' : Lifecycle) : Prop
  | steady (h : Steady c c')
  | failed (cause : ClientError) (w : Bool) (h : Failed p c c' cause w)
  | dropped (cause : ClientError) (w : Bool) (h : Dropped p c c' cause w)

/-- The attempt is under way while the client connects. -/
def Awaits (c : Lifecycle) : Prop := c.status = .connecting → (c.links c.link).awaited = true

theorem awaits_of_sound (h : c.outline.Sound) : c.Awaits := fun hs => (h.connecting hs).1

theorem failed_failConnection (hs : c.status = .connecting) (h : (c.links c.link).awaited = true)
    {error : ClientError} (he : p → error.isPlain) :
    ∃ cause w, Failed p c (c.failConnection error) cause w := by
  have hrejected := account_reject h error
  have hstatus : (c.reject error).status = .connecting :=
    (congrArg Account.status hrejected).trans hs
  have htrace : (c.reject error).trace = c.trace ++ [.attemptFailed c.link] :=
    congrArg Account.trace hrejected
  simp only [failConnection, hs, reduceCtorEq, if_false]
  rw [if_neg (by simp [updateView, hstatus])]
  generalize hd : (({ (c.reject error).updateView (.end_ error.cause) with
    status := .disconnected } : Lifecycle).closeHandler) = d
  have hsame : d.pursuit = c.pursuit := by
    rw [← hd, steady_closeHandler.pursuit]
    exact (steady_reject error).pursuit
  have hdtrace : d.trace = c.trace ++ [.attemptFailed c.link] := by
    rw [← hd]
    exact htrace
  have hdown : d.status = .disconnected := by
    rw [← hd]
    rfl
  have haside : Aside c d := ⟨_, hdtrace, fun _ hin => List.mem_singleton.mp hin ▸ rfl⟩
  have hlink : d.link = c.link := congrArg Pursuit.link hsame
  have hloop : d.loop = c.loop := congrArg Pursuit.loop hsame
  have hn : d.loopAttempt = c.loopAttempt := congrArg Pursuit.loopAttempt hsame
  rw [hlink, hloop, hn]
  have hasked := answered_ite_willReconnect (c := d) (c.loop.isSome = true) (error.asError d.clock)
    (c.loopAttempt + 1)
  generalize (if c.loop.isSome = true then
    d.willReconnect (error.asError d.clock) (c.loopAttempt + 1) else (d, false)) = asked at hasked ⊢
  obtain ⟨hanswered, hsteady⟩ := hasked
  have hplain : p → (error.asError d.clock).isPlain := by
    intro hp
    rw [ClientError.asError_of_isPlain (he hp)]
    exact he hp
  refine ⟨error.asError d.clock, asked.2, hplain, hs, hsteady.trans hdown, d, asked.1, haside, ?_,
    hsame, hanswered, rfl, rfl⟩
  rw [hdtrace]
  exact List.mem_append_right _ (List.mem_singleton.mpr rfl)

theorem pursues_failConnection (h : c.Awaits) {error : ClientError} (he : p → error.isPlain) :
    Pursues p c (c.failConnection error) := by
  cases hs : c.status with
  | connected =>
    rw [failConnection, if_pos hs]
    exact .steady (.refl c)
  | connecting =>
    obtain ⟨cause, w, hfailed⟩ := failed_failConnection hs (h hs) he
    exact .failed cause w hfailed
  | disconnected =>
    have hrejected : Steady c ((c.reject error).updateView (.end_ error.cause)) :=
      (steady_reject error).trans (steady_updateView _)
    have hdown : ((c.reject error).updateView (.end_ error.cause)).status = .disconnected :=
      hrejected.down.mpr hs
    simp only [failConnection, hs, reduceCtorEq, if_false]
    rw [if_pos hdown]
    exact .steady hrejected

theorem dropped_handleConnectionClosed (hs : c.status = .connected) {err : Option ClientError}
    (he : ∀ e, err = some e → p → e.isPlain) :
    ∃ cause w, Dropped p c (c.handleConnectionClosed err) cause w := by
  have hup : c.abortDown.status = .connected := hs
  simp only [handleConnectionClosed, hs, hup, reduceCtorEq, if_false, ne_eq, not_true]
  have hplain : p → (err.getD (.made .closed c.abortDown.clock)).isPlain := by
    cases err with
    | none => exact fun _ => rfl
    | some e => exact he e rfl
  generalize err.getD (.made .closed c.abortDown.clock) = cause at hplain ⊢
  generalize hd : ({ c.abortDown with status := .disconnected, lastDrop := some cause } :
    Lifecycle).endSession cause.cause = d
  have hended : Steady { c.abortDown with status := .disconnected, lastDrop := some cause } d :=
    hd ▸ steady_endSession _
  have hsame : d.pursuit = { c.pursuit with lastDrop := some cause } := by
    rw [hended.pursuit]
    show { c.abortDown.pursuit with lastDrop := some cause } = _
    rw [steady_abortDown.pursuit]
  have haside : Aside c d := steady_abortDown.aside.trans hended.aside
  have hdown : d.status = .disconnected := hended.down.mpr rfl
  have hlink : d.link = c.link := congrArg Pursuit.link hsame
  have hn : d.loopAttempt = c.loopAttempt := congrArg Pursuit.loopAttempt hsame
  have hloop : d.loop = c.loop := congrArg Pursuit.loop hsame
  have hstopped : d.stopped = c.stopped := congrArg Pursuit.stopped hsame
  have hreconnect : d.reconnect = c.reconnect := congrArg Pursuit.reconnect hsame
  rw [hn]
  have hanswered := answered_willReconnect (c := d) cause (c.loopAttempt + 1)
  generalize d.willReconnect cause (c.loopAttempt + 1) = asked at hanswered ⊢
  obtain ⟨e, w⟩ := asked
  obtain ⟨answer, l, rfl⟩ := hanswered.same
  dsimp only at hanswered ⊢
  generalize hf : ({ d with retryAnswer := answer, trace := d.trace ++ l } :
    Lifecycle).announceDisconnected d.link (some cause) w = f
  have hrounds := rounds_scheduleReconnect (c := f) cause
  refine ⟨cause, w, hplain, hs, ?_, d, _, f, haside, hsame, hanswered, by rw [← hf, ← hlink]; rfl,
    by rw [← hf]; rfl, ?_⟩
  · have hfdown : f.status = .disconnected := hf ▸ hdown
    rcases hrounds with ⟨heq, -⟩ | ⟨-, hround⟩
    · rw [heq, hfdown]
    · rw [hround.status, hfdown]
  · rw [← hloop, ← hstopped, ← hreconnect]
    subst hf
    exact hrounds

theorem pursues_handleConnectionClosed (h : c.Awaits) (err : Option ClientError)
    (he : ∀ e, err = some e → p → e.isPlain) :
    Relation.ReflTransGen (Pursues p) c (c.handleConnectionClosed err) := by
  cases hs : c.status with
  | disconnected =>
    rw [handleConnectionClosed, if_pos hs]
  | connected =>
    obtain ⟨cause, w, hdropped⟩ := dropped_handleConnectionClosed hs he
    exact .single (.dropped cause w hdropped)
  | connecting =>
    have hawaits : c.abortDown.Awaits := by
      intro hs'
      show ((c.abortDown.links c.link)).awaited = true
      rw [abortDown, links_modifyLink, if_pos rfl]
      exact h hs
    have hconnecting : c.abortDown.status = .connecting := hs
    simp only [handleConnectionClosed, hs, hconnecting, reduceCtorEq, if_false, ne_eq,
      not_false_eq_true, if_true]
    refine .tail (.single (.steady steady_abortDown)) (pursues_failConnection hawaits ?_)
    cases err with
    | none => exact fun _ => rfl
    | some e => exact he e rfl

theorem pursues_triggerClose (h : c.outline.Sound) {err : Option ClientError}
    (he : ∀ e, err = some e → p → e.isPlain) :
    Relation.ReflTransGen (Pursues p) c (c.triggerClose err) := by
  rw [triggerClose]
  split
  · have hawaits : c.closeHandler.Awaits := awaits_of_sound (by rwa [outline_closeHandler])
    exact .trans (.single (.steady steady_closeHandler))
      (pursues_handleConnectionClosed hawaits err he)
  · exact .refl

theorem pursues_handleReceiveError (h : c.outline.Sound) : Pursues p c c.handleReceiveError := by
  rw [handleReceiveError]
  split
  · exact .steady (.refl c)
  · exact pursues_failConnection (awaits_of_sound h) fun _ => rfl

/-! ### Rows -/

/-- What cannot be written fails with a plain error. -/
def Row.failsPlainly : Row → Bool
  | .unwritten err => err.isPlain
  | _ => true

theorem steady_emitServerEvent : Steady c c.emitServerEvent := steady_enqueue rfl

theorem steady_emitRaw : Steady c c.emitRaw := by
  rw [emitRaw]
  split
  · exact steady_emitServerEvent
  · exact .refl c

theorem steady_emitKicked (kicked : Bool) : Steady c (c.emitKicked kicked) := by
  rw [emitKicked]
  split
  · exact steady_enqueue rfl
  · exact .refl c

theorem steady_welcomeFinished : Steady c c.welcomeFinished := by
  rw [welcomeFinished]
  split
  · split
    · exact (steady_updateView .finish).trans (steady_enqueue rfl)
    · exact steady_updateView .finish
  · exact .refl c

theorem steady_foldl_updateView (ops : List (ViewStore.Op ClientError)) :
    Steady c (ops.foldl updateView c) := by
  induction ops generalizing c with
  | nil => exact .refl c
  | cons op ops ih => exact (steady_updateView op).trans ih

theorem steady_handleInitServer (params : Params) (valid : Bool) :
    Steady c (c.handleInitServer params valid).1 := by
  rw [handleInitServer]
  split
  · cases valid with
    | true => exact (steady_updateView (.seedServer params)).trans steady_markConnected
    | false => exact steady_updateView (.seedServer params)
  · exact .refl c

theorem pursues_handleRow (h : c.outline.Sound) {row : Row} (hrow : p → row.failsPlainly) :
    Relation.ReflTransGen (Pursues p) c (c.handleRow row).1 := by
  unfold handleRow
  split
  · exact .refl
  · cases row with
    | voice => exact .single (.steady steady_emitServerEvent)
    | cryptoInit =>
      have hsteady : Steady c (c.modifyLink c.link fun link =>
          { link with cryptoInitComplete := true }) := steady_modifyLink _ fun _ => ⟨rfl, rfl⟩
      exact .single (.steady hsteady)
    | initserver params valid => exact .single (.steady (steady_handleInitServer params valid))
    | error code =>
      cases code with
      | none => exact .refl
      | some code => exact .single (pursues_failConnection (awaits_of_sound h) fun _ => rfl)
    | channellistfinished => exact .single (.steady steady_welcomeFinished)
    | channellist row =>
      dsimp only
      split
      · exact .single (.steady (steady_updateView _))
      · exact .refl
    | selfLeft reason kicked self =>
      have hsteady : Steady c
          ((c.updateView (.rosterDelete self)).emitServerEvent.emitKicked kicked) :=
        ((steady_updateView _).trans steady_emitServerEvent).trans (steady_emitKicked kicked)
      have hsame : ((c.updateView (.rosterDelete self)).emitServerEvent.emitKicked kicked).outline =
          c.outline := by simp
      have hclosed := pursues_handleConnectionClosed (p := p) (awaits_of_sound (hsame ▸ h))
        (some (.made (.removed reason)
          ((c.updateView (.rosterDelete self)).emitServerEvent.emitKicked kicked).clock))
        fun e he _ => by cases he; rfl
      exact .tail (.trans (.single (.steady hsteady)) hclosed)
        (.steady (steady_closeHandler.trans steady_emitRaw))
    | notification event kicked ops =>
      refine .single (.steady
        (Steady.trans (Steady.trans ?_ (steady_emitKicked kicked)) steady_emitRaw))
      split
      · exact (steady_foldl_updateView _).trans steady_emitServerEvent
      · exact steady_foldl_updateView _
    | unwritten err => exact pursues_triggerClose h fun e he => by cases he; exact hrow
    | malformed => exact .refl

theorem pursues_handleRows (h : c.outline.Sound) {rows : List Row}
    (hrows : ∀ row ∈ rows, p → row.failsPlainly) :
    Relation.ReflTransGen (Pursues p) c (c.handleRows rows) := by
  induction rows generalizing c with
  | nil => exact .refl
  | cons row rows ih =>
    have hsound : (c.handleRow row).1.outline.Sound := (moves_handleRow row h).1
    simp only [handleRows]
    refine (pursues_handleRow h (hrows row List.mem_cons_self)).trans ?_
    split
    · exact ih hsound fun r hr => hrows r (List.mem_cons_of_mem _ hr)
    · exact .single (pursues_handleReceiveError hsound)

theorem pursues_receive (h : c.outline.Sound) {rows : List Row}
    (hrows : ∀ row ∈ rows, p → row.failsPlainly) :
    Relation.ReflTransGen (Pursues p) c (c.receive rows) := by
  rw [receive]
  split
  · exact pursues_handleRows h hrows
  · exact .refl

/-! ### Calls and leaving -/

/-- A call that waits for its attempt goes on. -/
theorem steady_await {k : ConnectID} {waiting : Waiting}
    (hw : (c.connects k).waiting.disconnects? = none) (hw' : waiting.disconnects? = none) :
    Steady c (c.await k waiting) :=
  .of_eq (pursuit_modifyConnect k (fun _ => ⟨rfl, rfl, rfl⟩) (hw'.trans hw.symm)) rfl rfl

theorem steady_finish {k : ConnectID} (result : Except ClientError Unit)
    (hw : (c.connects k).waiting.disconnects? = none) : Steady c (c.finish k result) :=
  .of_eq (pursuit_modifyConnect k (fun _ => ⟨rfl, rfl, rfl⟩) hw.symm) rfl rfl

/-- The attempt has failed, and the call goes on to wait for its promise. -/
theorem pursues_fail_await (h : c.outline.Sound) {error : ClientError} (he : p → error.isPlain)
    {k : ConnectID} (hw : (c.connects k).waiting.disconnects? = none) :
    Relation.ReflTransGen (Pursues p) c ((c.failConnection error).await k .settling) := by
  have hsame : ((c.failConnection error).connects k).waiting = (c.connects k).waiting :=
    congrFun (waiting_failConnection error) k
  exact .tail (.single (pursues_failConnection (awaits_of_sound h) he))
    (.steady (steady_await (by rwa [hsame]) rfl))

/-- A failure that comes from outside is a plain error. -/
def failsPlainly : Except ClientError Unit → Bool
  | .ok _ => true
  | .error e => e.isPlain

theorem pursues_resolved (h : c.outline.Sound) (k : ConnectID) {result : Except ClientError Unit}
    (hresult : p → failsPlainly result) :
    Relation.ReflTransGen (Pursues p) c (c.resolved k result) := by
  unfold resolved
  cases hw : (c.connects k).waiting with
  | resolving =>
    have hnone : (c.connects k).waiting.disconnects? = none := by rw [hw]; rfl
    cases result with
    | ok =>
      dsimp only
      split
      · exact .single (.steady (steady_await hnone rfl))
      · exact .single (.steady (steady_await hnone rfl))
    | error e => exact pursues_fail_await h hresult hnone
  | _ => exact .refl

theorem pursues_opened (h : c.outline.Sound) (k : ConnectID) {result : Except ClientError Unit}
    (hresult : p → failsPlainly result) :
    Relation.ReflTransGen (Pursues p) c (c.opened k result) := by
  unfold opened
  cases hw : (c.connects k).waiting with
  | opening =>
    have hnone : (c.connects k).waiting.disconnects? = none := by rw [hw]; rfl
    cases result with
    | ok =>
      dsimp only
      split
      · exact pursues_fail_await h (fun _ => rfl) hnone
      · have hopened : Steady c (c.modifyLink (c.connects k).link fun link =>
            { link with opened := true }) := steady_modifyLink _ fun _ => ⟨rfl, rfl⟩
        exact .single (.steady (hopened.trans (steady_await hnone rfl)))
    | error e => exact pursues_fail_await h hresult hnone
  | _ => exact .refl

/-- Of a call whose attempt has begun. -/
theorem pursues_aborts (h : c.outline.Sound) {k : ConnectID} {reason : ClientError}
    (hreason : p → reason.isPlain)
    (hw : (c.connects k).waiting.disconnects? = none) :
    Relation.ReflTransGen (Pursues p) c (c.aborts k reason) := by
  unfold aborts
  split
  · rename_i hwaits
    rw [hwaits] at hw
    cases hw
  · rename_i hwaits
    rw [hwaits] at hw
    cases hw
  · split
    · have hsteady : Steady c (c.modifyConnect k fun call => { call with listening := false }) :=
        .of_eq (pursuit_modifyConnect k (fun _ => ⟨rfl, rfl, rfl⟩) rfl) rfl rfl
      have hsame : (c.modifyConnect k fun call => { call with listening := false }).outline =
          c.outline := outline_modifyConnect k fun _ => rfl
      exact .tail (.single (.steady hsteady))
        (pursues_failConnection (awaits_of_sound (by rwa [hsame])) hreason)
    · exact .refl

theorem steady_leave (id : Nat) (a : LinkID) : Steady c (c.leave id a) := by
  have hended := (steady_closeHandler (c := c)).trans (steady_endSession .disconnect)
  have htold : Steady (c.closeHandler.endSession .disconnect) (c.leave id a) := by
    refine ⟨rfl, ?_, Iff.rfl⟩
    exact ⟨[.queued (.disconnected a none false)], rfl,
      fun _ hin => List.mem_singleton.mp hin ▸ rfl⟩
  exact hended.trans htold

theorem steady_goodbyeEnded : Steady c c.goodbyeEnded := by
  rw [goodbyeEnded]
  split
  · exact steady_leave _ _
  · exact .refl c

theorem steady_left : Steady c c.left := by
  rw [left]
  split
  · split
    · exact .refl c
    · have hsame : Steady c { c with leaving := none } := .of_eq rfl rfl rfl
      exact hsame.trans (steady_modifyLink _ fun _ => ⟨rfl, rfl⟩)
  · exact .refl c

theorem steady_deliver : Steady c c.deliver := by
  rw [deliver]
  split
  · exact .refl c
  · rename_i delivery queue _
    have hsame : Steady c { c with queue } := .of_eq rfl rfl rfl
    exact hsame.trans (steady_tell rfl)

theorem steady_delivered : Steady c c.delivered := by
  rw [delivered]
  split
  · exact .refl c
  · exact .of_eq rfl rfl rfl

theorem steady_issue : Steady c c.issue := by
  rw [issue]
  split
  · have hsame : Steady c { c.modifyLine c.nextLine fun _ => { link := c.link } with
        nextLine := c.nextLine + 1 } := .of_eq rfl rfl rfl
    exact hsame.trans (steady_tell rfl)
  · exact .refl c

theorem steady_handOn (n : LineID) : Steady c (c.handOn n) := by
  rw [handOn]
  split
  · exact steady_tell rfl
  · exact .refl c

/-- What comes from outside is, where it fails anything, a plain error. -/
def Event.failsPlainly : Event → Bool
  | .resolved _ (.error e) | .opened _ (.error e) => e.isPlain
  | .aborts _ reason => reason.isPlain
  | .closes (some err) => err.isPlain
  | .datagram rows => rows.all Row.failsPlainly
  | _ => true

/-- Whether a step is none of a call of `connect()` that has no attempt yet, of `disconnect()`
or of the loop. -/
def isOther (c : Lifecycle) : Event → Bool
  | .connect _ _ | .woken _ | .disconnect _ | .slept | .resumed => false
  | .aborts k _ => (c.connects k).waiting.disconnects?.isNone
  | _ => true

theorem pursues_happen (h : c.outline.Sound) {e : Event} (he : c.isOther e = true) :
    Relation.ReflTransGen (Pursues (e.failsPlainly = true)) c (c.happen e) := by
  cases e with
  | connect => cases he
  | woken => cases he
  | disconnect => cases he
  | slept => cases he
  | resumed => cases he
  | resolved k result =>
    cases result with
    | ok => exact pursues_resolved h k fun _ => rfl
    | error e => exact pursues_resolved h k id
  | opened k result =>
    cases result with
    | ok => exact pursues_opened h k fun _ => rfl
    | error e => exact pursues_opened h k id
  | aborts k reason => exact pursues_aborts h id (Option.isNone_iff_eq_none.mp he)
  | goodbyeEnded => exact .single (.steady steady_goodbyeEnded)
  | left => exact .single (.steady steady_left)
  | closes err =>
    cases err with
    | none => exact pursues_triggerClose h fun e he => by cases he
    | some err => exact pursues_triggerClose h fun e he => by cases he; exact id
  | datagram rows =>
    exact pursues_receive h fun row hrow hplain => List.all_eq_true.mp hplain row hrow
  | deliver => exact .single (.steady steady_deliver)
  | delivered => exact .single (.steady steady_delivered)
  | issue => exact .single (.steady steady_issue)
  | cut n => exact .single (.steady (.of_eq rfl rfl rfl))
  | returns n => exact .single (.steady (.of_eq rfl rfl rfl))
  | handOn n => exact .single (.steady (steady_handOn n))
  | read op =>
    simp only [happen]
    split
    · exact .single (.steady (steady_updateView op))
    · exact .refl
  | listen raw => exact .single (.steady (.of_eq rfl rfl rfl))

end Lifecycle

/-! ### Calls that have no attempt yet -/

namespace Pursuit

/-- Call `k` waits since there were so many disconnects, or for nothing of that kind. -/
def waits (p : Pursuit) (k : ConnectID) (since : Option Nat) : Pursuit :=
  { p with since := fun j => if j = k then since else p.since j }

/-- Call `k` is new. -/
def calls (p : Pursuit) (k : ConnectID) (call : Nat × Bool) : Pursuit :=
  { p with
    call := fun j => if j = k then call else p.call j
    callLink := fun j => if j = k then 0 else p.callLink j
    since := fun j => if j = k then none else p.since j }

/-- The attempt of call `k` begins. -/
def begins (p : Pursuit) (k : ConnectID) : Pursuit :=
  { p with
    link := p.link + 1
    stopped := false
    attempt := fun a => if a = p.link + 1 then p.call k else p.attempt a
    callLink := fun j => if j = k then p.link + 1 else p.callLink j
    since := fun j => if j = k then none else p.since j }

/-- It changes nothing that a call still waits so. -/
theorem waits_self {p : Pursuit} {k : ConnectID} {since : Option Nat} (h : p.since k = since) :
    p.waits k since = p := by
  refine Pursuit.ext rfl rfl rfl rfl rfl rfl rfl rfl rfl rfl rfl rfl (funext fun j => ?_)
  show (if j = k then since else p.since j) = p.since j
  split
  · rename_i heq
    rw [heq, h]
  · rfl

@[simp] theorem waits_waits (p : Pursuit) (k : ConnectID) (since since' : Option Nat) :
    (p.waits k since).waits k since' = p.waits k since' := by
  simp only [waits]
  congr 1
  funext j
  split <;> rfl

@[simp] theorem begins_waits (p : Pursuit) (k : ConnectID) (since : Option Nat) :
    (p.waits k since).begins k = p.begins k := by
  simp only [waits, begins]
  congr 1
  funext j
  split <;> rfl

end Pursuit

namespace Lifecycle

variable {c c' : Lifecycle}

/-- What is put where it was changes nothing. -/
theorem ite_at_self {α : Type*} (f : Nat → α) (k : Nat) :
    (fun j => if j = k then f k else f j) = f := by
  funext j
  split
  · rename_i h
    rw [h]
  · rfl

/-- A call is another. -/
theorem pursuit_remakeCall (k : ConnectID) {f : Connecting → Connecting} {call : Nat × Bool}
    {link : LinkID} {since : Option Nat}
    (hcall : ((f (c.connects k)).number, (f (c.connects k)).reconnect) = call)
    (hlink : (f (c.connects k)).link = link)
    (hsince : (f (c.connects k)).waiting.disconnects? = since) :
    (c.modifyConnect k f).pursuit =
      { c.pursuit with
        call := fun j => if j = k then call else c.pursuit.call j
        callLink := fun j => if j = k then link else c.pursuit.callLink j
        since := fun j => if j = k then since else c.pursuit.since j } := by
  refine Pursuit.ext rfl rfl rfl rfl rfl rfl rfl rfl rfl rfl (funext fun j => ?_)
    (funext fun j => ?_) (funext fun j => ?_)
  · simp only [pursuit, connects_modifyConnect]
    split
    · exact hcall
    · rfl
  · simp only [pursuit, connects_modifyConnect]
    split
    · exact hlink
    · rfl
  · simp only [pursuit, connects_modifyConnect]
    split
    · exact hsince
    · rfl

/-- A call comes to wait for something else. -/
theorem pursuit_modifyConnect_waiting (k : ConnectID) {f : Connecting → Connecting}
    (waiting : Waiting) (hf : ∀ call, (f call).number = call.number ∧
      (f call).reconnect = call.reconnect ∧ (f call).link = call.link ∧
        (f call).waiting = waiting) :
    (c.modifyConnect k f).pursuit = c.pursuit.waits k waiting.disconnects? := by
  obtain ⟨hnumber, hreconnect, hlink, hwaiting⟩ := hf (c.connects k)
  have hcall : ((f (c.connects k)).number, (f (c.connects k)).reconnect) = c.pursuit.call k := by
    rw [hnumber, hreconnect]
    rfl
  have hlink' : (f (c.connects k)).link = c.pursuit.callLink k := hlink
  rw [pursuit_remakeCall k hcall hlink' (congrArg Waiting.disconnects? hwaiting), ite_at_self,
    ite_at_self, Pursuit.waits]

theorem pursuit_await (k : ConnectID) (waiting : Waiting) :
    (c.await k waiting).pursuit = c.pursuit.waits k waiting.disconnects? :=
  pursuit_modifyConnect_waiting k waiting fun _ => ⟨rfl, rfl, rfl, rfl⟩

theorem pursuit_finish (k : ConnectID) (result : Except ClientError Unit) :
    (c.finish k result).pursuit = c.pursuit.waits k none :=
  pursuit_modifyConnect_waiting k (.done result) fun _ => ⟨rfl, rfl, rfl, rfl⟩

/-- What becomes of a call that goes on without an attempt, `p` being how it waits. -/
inductive Proceeds (p : Pursuit) (k : ConnectID) (c c' : Lifecycle) : Prop
  | waits (h : c'.pursuit = p) (htrace : c'.trace = c.trace) (hs : c'.status = c.status)
  | rejected (h : c'.pursuit = p.waits k none) (htrace : c'.trace = c.trace)
      (hs : c'.status = c.status)
      (hwhy : p.since k ≠ some p.disconnects ∨ c.status ≠ .disconnected ∨ p.addressable = false)
  | begins (hd : p.since k = some p.disconnects) (hdown : c.status = .disconnected)
      (haddress : p.addressable = true) (h : c'.pursuit = p.begins k)
      (htrace : c'.trace =
        c.trace ++ if (p.call k).2 then [.retried (p.link + 1)] else [])
      (hs : c'.status = .connecting)

/-- Another link is as it is made. -/
theorem pursuit_remakeLink (a : LinkID) {f : Link → Link} (attempt : Nat × Bool)
    (hf : ∀ link, ((f link).number, (f link).reconnect) = attempt) :
    (c.modifyLink a f).pursuit =
      { c.pursuit with attempt := fun b => if b = a then attempt else c.pursuit.attempt b } := by
  refine Pursuit.ext rfl rfl rfl rfl rfl rfl rfl rfl rfl (funext fun b => ?_) rfl rfl rfl
  simp only [pursuit, links_modifyLink]
  split
  · exact hf _
  · rfl

theorem pursuit_resetForConnect : c.resetForConnect.pursuit =
    { c.pursuit with
      link := c.link + 1
      attempt := fun a => if a = c.link + 1 then (0, false) else c.pursuit.attempt a } := by
  have hclosed : c.closeHandler.abortDown.pursuit = c.pursuit :=
    (steady_closeHandler.trans steady_abortDown).pursuit
  have hmade := pursuit_remakeLink (c := { c.closeHandler.abortDown with link := c.link + 1 })
    (c.link + 1) (f := fun _ => {}) (0, false) fun _ => rfl
  refine hmade.trans ?_
  show ({ c.closeHandler.abortDown.pursuit with
    link := c.link + 1
    attempt := fun a =>
      if a = c.link + 1 then (0, false) else c.closeHandler.abortDown.pursuit.attempt a } :
        Pursuit) = _
  rw [hclosed]

theorem pursuit_startAttempt (call : Connecting) : (c.startAttempt call).pursuit =
    { c.pursuit with
      link := c.link + 1
      stopped := false
      attempt := fun a =>
        if a = c.link + 1 then (call.number, call.reconnect) else c.pursuit.attempt a } := by
  have hreset := pursuit_resetForConnect (c := { c with stopped := false })
  rw [startAttempt]
  generalize ({ c with stopped := false } : Lifecycle).resetForConnect = d at hreset
  have hdlink : d.link = c.link + 1 := congrArg Pursuit.link hreset
  have hbegun : (({ d with status := .connecting } : Lifecycle).modifyLink d.link fun link =>
      { link with traced := true, number := call.number, reconnect := call.reconnect }).pursuit =
        { d.pursuit with attempt := fun a =>
          if a = d.link then (call.number, call.reconnect) else d.pursuit.attempt a } :=
    pursuit_remakeLink (c := { d with status := .connecting }) d.link _ fun _ => rfl
  have hattempt : (fun a => if a = c.link + 1 then (call.number, call.reconnect)
      else d.pursuit.attempt a) = fun a => if a = c.link + 1 then (call.number, call.reconnect)
      else c.pursuit.attempt a := by
    funext a
    rw [hreset]
    dsimp only
    split <;> rfl
  rw [hdlink, hattempt] at hbegun
  dsimp only
  rw [hdlink]
  split
  · refine hbegun.trans ?_
    rw [hreset]
    rfl
  · rw [hbegun, hreset]
    rfl

/-- The attempt of call `k` begins. -/
theorem pursuit_begun (k : ConnectID) :
    ((c.startAttempt (c.connects k)).modifyConnect k fun call =>
      { call with
        link := (c.startAttempt (c.connects k)).link
        listening := call.signal
        waiting := .resolving }).pursuit = c.pursuit.begins k := by
  have hstarted := pursuit_startAttempt (c := c) (c.connects k)
  generalize c.startAttempt (c.connects k) = d at hstarted ⊢
  have hcall : ((d.connects k).number, (d.connects k).reconnect) = c.pursuit.call k :=
    congrFun (congrArg Pursuit.call hstarted) k
  have hlink : d.link = c.link + 1 := congrArg Pursuit.link hstarted
  rw [pursuit_remakeCall k hcall rfl rfl, hstarted, hlink]
  dsimp only
  rw [ite_at_self]
  rfl

/-- Where a call goes on, having waited since there were `d` disconnects. -/
theorem proceeds_proceed (k : ConnectID) (d : Nat) :
    Proceeds (c.pursuit.waits k (some d)) k c (c.proceed k d) := by
  have hsince : (c.pursuit.waits k (some d)).since k = some d := if_pos rfl
  rw [proceed]
  split
  · exact .waits (pursuit_await k _) rfl rfl
  · split
    · rename_i hd
      refine .rejected ?_ rfl rfl (Or.inl ?_)
      · rw [pursuit_finish, Pursuit.waits_waits]
      · rw [hsince]
        exact fun heq => hd (Option.some.inj heq).symm
    · rename_i hd
      rw [not_not] at hd
      split
      · rename_i hs
        refine .rejected ?_ rfl rfl (Or.inr (Or.inl hs))
        rw [pursuit_finish, Pursuit.waits_waits]
      · rename_i hs
        rw [not_not] at hs
        split
        · rename_i haddress
          refine .rejected ?_ rfl rfl (Or.inr (Or.inr haddress))
          rw [pursuit_finish, Pursuit.waits_waits]
        · rename_i haddress
          rw [Bool.not_eq_false] at haddress
          refine .begins (hsince.trans (congrArg some hd.symm)) hs haddress ?_ ?_ ?_
          · rw [Pursuit.begins_waits]
            exact pursuit_begun k
          · exact congrArg Account.trace (account_startAttempt (c.connects k))
          · exact congrArg Account.status (account_startAttempt (c := c) (c.connects k))

theorem pursuit_newCall (number : Nat) (reconnect signal : Bool) :
    ({ c with nextConnect := c.nextConnect + 1 }.modifyConnect c.nextConnect fun _ =>
      { number, reconnect, signal }).pursuit =
        c.pursuit.calls c.nextConnect (number, reconnect) :=
  pursuit_remakeCall (c := { c with nextConnect := c.nextConnect + 1 }) c.nextConnect rfl rfl rfl

theorem connect_aborted (number : Nat) (reconnect signal : Bool) (reason : ClientError) :
    (c.connect number reconnect signal (some reason)).pursuit =
      c.pursuit.calls c.nextConnect (number, reconnect) := by
  unfold connect
  dsimp only
  rw [pursuit_finish, pursuit_newCall]
  exact Pursuit.waits_self (if_pos rfl)

/-- Only what is shown and the status count. -/
theorem Proceeds.of_eq {p : Pursuit} {k : ConnectID} {d : Lifecycle} (h : Proceeds p k d c')
    (htrace : d.trace = c.trace) (hs : d.status = c.status) : Proceeds p k c c' := by
  cases h with
  | waits h htrace' hs' => exact .waits h (htrace'.trans htrace) (hs'.trans hs)
  | rejected h htrace' hs' hwhy =>
    exact .rejected h (htrace'.trans htrace) (hs'.trans hs) (by rwa [← hs])
  | begins hd hdown haddress h htrace' hs' =>
    exact .begins hd (hs ▸ hdown) haddress h (htrace ▸ htrace') hs'

/-- A call whose signal has not aborted. -/
theorem proceeds_connect (number : Nat) (reconnect signal : Bool) :
    Proceeds ((c.pursuit.calls c.nextConnect (number, reconnect)).waits c.nextConnect
      (some c.disconnects)) c.nextConnect c (c.connect number reconnect signal none) := by
  have hnew := pursuit_newCall (c := c) number reconnect signal
  unfold connect
  dsimp only
  generalize hd : ({ c with nextConnect := c.nextConnect + 1 }.modifyConnect c.nextConnect fun _ =>
    { number, reconnect, signal }) = d at hnew ⊢
  have htrace : d.trace = c.trace := hd ▸ rfl
  have hs : d.status = c.status := hd ▸ rfl
  have hdisconnects : d.disconnects = c.disconnects := hd ▸ rfl
  rw [← hnew, ← hdisconnects]
  split
  · exact .waits (pursuit_await _ _) htrace hs
  · exact (proceeds_proceed c.nextConnect d.disconnects).of_eq htrace hs

/-- A call that waits before its attempt is woken. -/
theorem proceeds_woken {k : ConnectID} {d : Nat}
    (hw : (c.connects k).waiting.disconnects? = some d) : Proceeds c.pursuit k c (c.woken k) := by
  have hsame : c.pursuit.waits k (some d) = c.pursuit := Pursuit.waits_self hw
  have hproceeds := proceeds_proceed (c := c) k d
  rw [hsame] at hproceeds
  unfold woken
  split
  · rename_i hwaits
    rw [hwaits] at hw
    cases hw
    split
    · exact .waits rfl rfl rfl
    · exact hproceeds
  · rename_i hwaits
    rw [hwaits] at hw
    cases hw
    split
    · exact .waits rfl rfl rfl
    · exact hproceeds
  · rename_i hwaits
    rw [hwaits] at hw
    cases hw
  · exact .waits rfl rfl rfl

/-- Any other call that is woken. -/
theorem steady_woken {k : ConnectID} (hw : (c.connects k).waiting.disconnects? = none) :
    Steady c (c.woken k) := by
  unfold woken
  split
  · rename_i hwaits
    rw [hwaits] at hw
    cases hw
  · rename_i hwaits
    rw [hwaits] at hw
    cases hw
  · split
    · exact .refl c
    · exact steady_finish _ hw
  · exact .refl c

/-- A signal aborts a call that waits before its attempt. -/
theorem aborts_unbegun {k : ConnectID} (reason : ClientError)
    (hw : (c.connects k).waiting.disconnects?.isSome) :
    Steady c (c.aborts k reason) ∨
      (c.aborts k reason).pursuit = c.pursuit.waits k none ∧
        (c.aborts k reason).trace = c.trace ∧ (c.aborts k reason).status = c.status := by
  have hcut : ∀ d : Lifecycle,
      d = (if (c.connects k).signal then c.finish k (.error reason) else c) → Steady c d ∨
        d.pursuit = c.pursuit.waits k none ∧ d.trace = c.trace ∧ d.status = c.status := by
    rintro d rfl
    split
    · exact Or.inr ⟨pursuit_finish k _, rfl, rfl⟩
    · exact Or.inl (.refl c)
  rw [aborts]
  split
  · exact hcut _ rfl
  · exact hcut _ rfl
  · rename_i hleaving hdelivered
    cases hwaits : (c.connects k).waiting with
    | leaving d l => exact absurd hwaits (hleaving d l)
    | delivered d l => exact absurd hwaits (hdelivered d l)
    | _ =>
      rw [hwaits] at hw
      cases hw

/-! ### Leaving -/

theorem aside_abandon : c.abandon.pursuit = c.pursuit ∧ Aside c c.abandon := by
  have hended := (steady_abortDown (c := { c with status := .disconnected })).trans
    steady_rejectAfter
  exact ⟨hended.pursuit, hended.aside⟩

theorem aside_sayGoodbye (aborted : Bool) :
    (c.sayGoodbye aborted).pursuit = c.pursuit ∧ Aside c (c.sayGoodbye aborted) := by
  rw [sayGoodbye]
  split
  · exact ⟨rfl, aside_tell (c := { c with leaving := _ }) rfl⟩
  · exact ⟨rfl, .of_eq rfl⟩

/-- `disconnect()`: whatever was under way ends, and nothing is retried. -/
theorem pursuit_disconnect (aborted : Bool) :
    (c.disconnect aborted).pursuit =
        { c.pursuit with stopped := true, disconnects := c.disconnects + 1 } ∧
      Aside c (c.disconnect aborted) := by
  generalize hd : ({ c with stopped := true, disconnects := c.disconnects + 1 } : Lifecycle) = d
  have hpursuit : d.pursuit =
      { c.pursuit with stopped := true, disconnects := c.disconnects + 1 } := hd ▸ rfl
  have htrace : d.trace = c.trace := hd ▸ rfl
  obtain ⟨habandoned, haside⟩ := aside_abandon (c := d)
  rw [disconnect, hd]
  dsimp only
  split
  · exact ⟨hpursuit, .of_eq htrace⟩
  · split
    · obtain ⟨hsaid, hshown⟩ := aside_sayGoodbye (c := d.abandon) aborted
      exact ⟨(hsaid.trans habandoned).trans hpursuit,
        (Aside.of_eq htrace).trans (haside.trans hshown)⟩
    · have hleft := steady_leave (c := d.abandon) d.disconnects d.link
      exact ⟨(hleft.pursuit.trans habandoned).trans hpursuit,
        (Aside.of_eq htrace).trans (haside.trans hleft.aside)⟩

/-! ### Every step -/

/-- What a step does to all that the loop goes by. -/
inductive Advances (c : Lifecycle) : Event → Lifecycle → Prop
  | other (e : Event) (c' : Lifecycle)
      (h : Relation.ReflTransGen (Pursues (e.failsPlainly = true)) c c') : Advances c e c'
  | refused (signal : Bool) (reason : ClientError) (c' : Lifecycle)
      (h : c'.pursuit = c.pursuit.calls c.nextConnect (1, false)) (htrace : c'.trace = c.trace)
      (hs : c'.status = c.status) : Advances c (.connect signal (some reason)) c'
  | connects (signal : Bool) (c' : Lifecycle)
      (h : Proceeds ((c.pursuit.calls c.nextConnect (1, false)).waits c.nextConnect
        (some c.disconnects)) c.nextConnect c c') : Advances c (.connect signal none) c'
  | goesOn (k : ConnectID) (c' : Lifecycle) (hw : c.pursuit.since k ≠ none)
      (h : Proceeds c.pursuit k c c') : Advances c (.woken k) c'
  | cut (k : ConnectID) (reason : ClientError) (c' : Lifecycle) (hw : c.pursuit.since k ≠ none)
      (h : c'.pursuit = c.pursuit.waits k none) (htrace : c'.trace = c.trace)
      (hs : c'.status = c.status) : Advances c (.aborts k reason) c'
  | stops (aborted : Bool) (c' : Lifecycle)
      (h : c'.pursuit = { c.pursuit with stopped := true, disconnects := c.disconnects + 1 })
      (haside : Aside c c') (hs : c'.status = .disconnected) :
      Advances c (.disconnect aborted) c'
  | gaveUp (n : Nat) (hloop : c.loop = some ⟨n, none⟩)
      (hwhy : c.stopped = true ∨ c.status ≠ .disconnected) : Advances c .slept c.endLoop
  | attempts (n : Nat) (c' : Lifecycle) (hloop : c.loop = some ⟨n, none⟩)
      (hstopped : c.stopped = false) (hdown : c.status = .disconnected)
      (h : Proceeds ((({ c.pursuit with
        loopAttempt := n, loop := some ⟨n, some c.nextConnect⟩ } : Pursuit).calls c.nextConnect
          (n, true)).waits c.nextConnect (some c.disconnects)) c.nextConnect c c') :
      Advances c .slept c'
  | ended (n : Nat) (k : ConnectID) (result : Except ClientError Unit)
      (hloop : c.loop = some ⟨n, some k⟩) (hdone : (c.connects k).waiting = .done result)
      (hwhy : result = .ok () ∧ c.status = .connected ∨
        ∃ e, result = .error e ∧ e.isAlreadyConnected = true) : Advances c .resumed c.endLoop
  | retries (n : Nat) (k : ConnectID) (result : Except ClientError Unit) (err : ClientError)
      (c' : Lifecycle) (hloop : c.loop = some ⟨n, some k⟩)
      (hdone : (c.connects k).waiting = .done result)
      (hwhy : result = .ok () ∧ c.status ≠ .connected ∧
          err = c.lastDrop.getD (.made .closed c.clock) ∨
        ∃ e, result = .error e ∧ e.isAlreadyConnected = false ∧ err = e.asError c.clock)
      (h : Rounds c err (n + 1) c') : Advances c .resumed c'

theorem advances_slept : Advances c .slept c.slept := by
  unfold slept
  split
  · rename_i n hloop
    split
    · rename_i hwhy
      exact .gaveUp n hloop hwhy
    · rename_i hon
      rw [not_or, not_not, Bool.not_eq_true] at hon
      have hproceeds := proceeds_connect (c := { c with loopAttempt := n }) n true true
      generalize ({ c with loopAttempt := n } : Lifecycle).connect n true true none = d at hproceeds
      refine .attempts n _ hloop hon.1 hon.2 ?_
      cases hproceeds with
      | waits h htrace hs =>
        exact .waits (congrArg (fun p : Pursuit =>
          { p with loop := some ⟨n, some c.nextConnect⟩ }) h) htrace hs
      | rejected h htrace hs hwhy =>
        exact .rejected (congrArg (fun p : Pursuit =>
          { p with loop := some ⟨n, some c.nextConnect⟩ }) h) htrace hs hwhy
      | begins hd hdown haddress h htrace hs =>
        exact .begins hd hdown haddress (congrArg (fun p : Pursuit =>
          { p with loop := some ⟨n, some c.nextConnect⟩ }) h) htrace hs
  · exact .other _ _ .refl

theorem advances_resumed : Advances c .resumed c.resumed := by
  unfold resumed
  split
  · rename_i n k hloop
    split
    · rename_i u hdone
      split
      · rename_i hs
        exact .ended n k _ hloop hdone (Or.inl ⟨rfl, hs⟩)
      · rename_i hs
        exact .retries n k _ _ _ hloop hdone (Or.inl ⟨rfl, hs, rfl⟩) (rounds_round _ _)
    · rename_i e hdone
      split
      · rename_i he
        exact .ended n k _ hloop hdone (Or.inr ⟨e, rfl, he⟩)
      · rename_i he
        rw [Bool.not_eq_true] at he
        exact .retries n k _ _ _ hloop hdone (Or.inr ⟨e, rfl, he, rfl⟩) (rounds_round _ _)
    · exact .other _ _ .refl
  · exact .other _ _ .refl

theorem advances_happen (h : c.outline.Sound) (e : Event) : Advances c e (c.happen e) := by
  cases e with
  | connect signal aborted =>
    cases aborted with
    | some reason =>
      exact .refused signal reason _ (connect_aborted 1 false signal reason) rfl rfl
    | none => exact .connects signal _ (proceeds_connect 1 false signal)
  | woken k =>
    cases hw : (c.connects k).waiting.disconnects? with
    | none => exact .other _ _ (.single (.steady (steady_woken hw)))
    | some d =>
      refine .goesOn k _ (fun hnone => ?_) (proceeds_woken hw)
      cases hw.symm.trans hnone
  | aborts k reason =>
    cases hw : (c.connects k).waiting.disconnects? with
    | none => exact .other _ _ (pursues_happen h (by rw [isOther, hw]; rfl))
    | some d =>
      rcases aborts_unbegun reason (by rw [hw]; rfl) with hsteady | ⟨hpursuit, htrace, hs⟩
      · exact .other _ _ (.single (.steady hsteady))
      · refine .cut k reason _ (fun hnone => ?_) hpursuit htrace hs
        cases hw.symm.trans hnone
  | disconnect aborted =>
    obtain ⟨hpursuit, haside⟩ := pursuit_disconnect (c := c) aborted
    exact .stops aborted _ hpursuit haside (status_disconnect h aborted).1
  | slept => exact advances_slept
  | resumed => exact advances_resumed
  | _ => exact .other _ _ (pursues_happen h rfl)

end Lifecycle

end Teamspeak.Client
