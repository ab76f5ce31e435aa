import Teamspeak.Client.Lifecycle.Outline

/-!
# What a step shows

Every function of the client but those of the queue and of the callers' lines adds to what is
shown, and to the queue what it shows as queued.  So what was delivered and what is in the
queue are, one after the other, what was queued.
-/

namespace Teamspeak.Client

namespace Shown

def queued? : Shown → Option Queued
  | queued delivery => some delivery
  | _ => none

def delivered? : Shown → Option Queued
  | delivered delivery => some delivery
  | _ => none

/-- Neither a delivery, nor about a caller's line or a goodbye. -/
def isPlain : Shown → Bool
  | delivered _ | issued _ _ | wrote _ _ _ | goodbye _ _ => false
  | _ => true

theorem delivered?_of_isPlain {shown : Shown} (h : shown.isPlain) : shown.delivered? = none := by
  cases shown with
  | delivered => cases h
  | _ => rfl

end Shown

namespace Lifecycle

/-- All that was queued. -/
def queuedLog (c : Lifecycle) : List Queued := c.trace.filterMap Shown.queued?

/-- All that was delivered. -/
def deliveredLog (c : Lifecycle) : List Queued := c.trace.filterMap Shown.delivered?

/-- More is shown, and what of it is queued is in the queue; a caller's line is of the link it
was of. -/
def Grows (c c' : Lifecycle) : Prop :=
  (∃ l : List Shown, c'.trace = c.trace ++ l ∧ c'.queue = c.queue ++ l.filterMap Shown.queued? ∧
    ∀ shown ∈ l, shown.isPlain) ∧
  c'.nextLine = c.nextLine ∧ ∀ n, (c'.lines n).link = (c.lines n).link

variable {c c' c'' : Lifecycle}

/-- What is shown, queued and known of lines is the same. -/
structure ShowsSame (c c' : Lifecycle) : Prop where
  trace : c'.trace = c.trace
  queue : c'.queue = c.queue
  nextLine : c'.nextLine = c.nextLine
  lines : c'.lines = c.lines

theorem Grows.of_eq (htrace : c'.trace = c.trace) (hqueue : c'.queue = c.queue)
    (hnext : c'.nextLine = c.nextLine) (hlines : c'.lines = c.lines) :
    Grows c c' := by
  refine ⟨⟨[], ?_, ?_, fun shown hmem => absurd hmem List.not_mem_nil⟩, hnext, ?_⟩
  · rw [htrace, List.append_nil]
  · rw [hqueue, List.filterMap_nil, List.append_nil]
  · intro n
    rw [hlines]

theorem Grows.refl (c : Lifecycle) : Grows c c := .of_eq rfl rfl rfl rfl

theorem Grows.trans (h : Grows c c') (h' : Grows c' c'') : Grows c c'' := by
  obtain ⟨⟨l, htrace, hqueue, hplain⟩, hnext, hlines⟩ := h
  obtain ⟨⟨m, htrace', hqueue', hplain'⟩, hnext', hlines'⟩ := h'
  refine ⟨⟨l ++ m, ?_, ?_, ?_⟩, hnext'.trans hnext, fun n => (hlines' n).trans (hlines n)⟩
  · rw [htrace', htrace, List.append_assoc]
  · rw [hqueue', hqueue, List.filterMap_append, List.append_assoc]
  · intro shown hmem
    rcases List.mem_append.mp hmem with hmem | hmem
    · exact hplain shown hmem
    · exact hplain' shown hmem

theorem grows_tell {shown : Shown} (hplain : shown.isPlain) (hqueued : shown.queued? = none) :
    Grows c (c.tell shown) := by
  refine ⟨⟨[shown], rfl, ?_, ?_⟩, rfl, fun _ => rfl⟩
  · rw [List.filterMap_cons_none hqueued, List.filterMap_nil, List.append_nil]
    rfl
  · intro x hx
    rwa [List.mem_singleton.mp hx]

theorem grows_enqueue (delivery : Queued) : Grows c (c.enqueue delivery) :=
  ⟨⟨[.queued delivery], rfl, rfl, fun x hx => by rw [List.mem_singleton.mp hx]; rfl⟩, rfl,
    fun _ => rfl⟩

theorem grows_modifyLine (n : LineID) {f : InFlight → InFlight}
    (hf : ∀ line, (f line).link = line.link) : Grows c (c.modifyLine n f) := by
  obtain ⟨hshows, -⟩ := Grows.refl c
  refine ⟨hshows, rfl, fun m => ?_⟩
  rw [lines_modifyLine]
  split
  · rename_i h
    rw [hf, h]
  · rfl

/-! ### Attempts and sessions -/

theorem grows_failAttempt : Grows c c.failAttempt := by
  rw [failAttempt]
  split
  · exact grows_tell rfl rfl
  · exact .refl c

theorem grows_reject (error : ClientError) : Grows c (c.reject error) := by
  rw [reject]
  split
  · exact .refl c
  · exact grows_failAttempt

theorem grows_rejectAfter : Grows c c.rejectAfter := by
  rw [rejectAfter]
  split
  · exact .refl c
  · exact grows_failAttempt

theorem grows_endSession (cause : Cause ClientError) : Grows c (c.endSession cause) := by
  simp only [endSession]
  split
  · exact .of_eq rfl rfl rfl rfl
  · exact grows_tell (c := { c.updateView (.end_ cause) with session := none }) rfl rfl

theorem grows_announceDisconnected (a : LinkID) (cause : Option ClientError)
    (willReconnect : Bool) : Grows c (c.announceDisconnected a cause willReconnect) :=
  grows_enqueue _

theorem grows_willReconnect (err : ClientError) (attempt : Nat) :
    Grows c (c.willReconnect err attempt).1 := by
  rw [willReconnect]
  split
  · exact .refl c
  · split
    · exact .refl c
    · split
      · exact .refl c
      · dsimp only
        split
        · exact .refl c
        · exact grows_tell rfl rfl

theorem grows_round (err : ClientError) (attempt : Nat) : Grows c (c.round err attempt) := by
  rw [round]
  split
  · exact .of_eq rfl rfl rfl rfl
  · split
    · exact .of_eq rfl rfl rfl rfl
    · split
      · exact .of_eq rfl rfl rfl rfl
      · dsimp only
        split
        · exact grows_willReconnect err attempt
        · exact grows_willReconnect err attempt

theorem grows_scheduleReconnect (err : ClientError) : Grows c (c.scheduleReconnect err) := by
  rw [scheduleReconnect]
  split
  · exact .refl c
  · exact grows_round err 1

theorem grows_failConnection (error : ClientError) : Grows c (c.failConnection error) := by
  simp only [failConnection]
  split
  · exact .refl c
  · have hrejected := grows_reject (c := c) error
    split
    · exact hrejected
    · refine Grows.trans ?_ (grows_announceDisconnected _ _ _)
      split
      · exact hrejected.trans (grows_willReconnect (c := closeHandler _) _ _)
      · exact hrejected

theorem grows_handleConnectionClosed (err : Option ClientError) :
    Grows c (c.handleConnectionClosed err) := by
  simp only [handleConnectionClosed]
  split
  · exact .refl c
  · split
    · exact grows_failConnection (c := c.abortDown) _
    · refine Grows.trans ?_ (grows_scheduleReconnect _)
      refine Grows.trans ?_ (grows_announceDisconnected _ _ _)
      exact (grows_endSession (c := { c.abortDown with status := _, lastDrop := _ }) _).trans
        (grows_willReconnect _ _)

theorem grows_triggerClose (err : Option ClientError) : Grows c (c.triggerClose err) := by
  rw [triggerClose]
  split
  · exact grows_handleConnectionClosed (c := c.closeHandler) err
  · exact .refl c

theorem grows_handleReceiveError : Grows c c.handleReceiveError := by
  rw [handleReceiveError]
  split
  · exact .refl c
  · exact grows_failConnection _

theorem grows_markConnected : Grows c c.markConnected := by
  rw [markConnected]
  split
  · exact .refl c
  · refine Grows.trans ?_ (grows_enqueue _)
    rw [startSession]
    split
    · exact grows_tell (c := { resolve _ with session := _ }) rfl rfl
    · exact .of_eq rfl rfl rfl rfl

/-! ### Calls -/

theorem grows_startAttempt (call : Connecting) : Grows c (c.startAttempt call) := by
  rw [startAttempt]
  dsimp only
  split
  · exact grows_tell (c := modifyLink _ _ _) rfl rfl
  · exact .of_eq rfl rfl rfl rfl

theorem grows_proceed (k : ConnectID) (disconnects : Nat) : Grows c (c.proceed k disconnects) := by
  rw [proceed]
  split
  · exact .of_eq rfl rfl rfl rfl
  · split
    · exact .of_eq rfl rfl rfl rfl
    · split
      · exact .of_eq rfl rfl rfl rfl
      · split
        · exact .of_eq rfl rfl rfl rfl
        · exact grows_startAttempt (c.connects k)

theorem grows_connect (number : Nat) (reconnect signal : Bool) (aborted : Option ClientError) :
    Grows c (c.connect number reconnect signal aborted) := by
  unfold connect
  dsimp only
  split
  · exact .of_eq rfl rfl rfl rfl
  · split
    · exact .of_eq rfl rfl rfl rfl
    · exact grows_proceed (c := modifyConnect _ _ _) _ _

theorem grows_woken (k : ConnectID) : Grows c (c.woken k) := by
  unfold woken
  split
  · split
    · exact .refl c
    · exact grows_proceed k _
  · split
    · exact .refl c
    · exact grows_proceed k _
  · split
    · exact .refl c
    · exact .of_eq rfl rfl rfl rfl
  · exact .refl c

theorem grows_resolved (k : ConnectID) (result : Except ClientError Unit) :
    Grows c (c.resolved k result) := by
  unfold resolved
  split
  · split <;> exact .of_eq rfl rfl rfl rfl
  · exact grows_failConnection _
  · exact .refl c

theorem grows_opened (k : ConnectID) (result : Except ClientError Unit) :
    Grows c (c.opened k result) := by
  unfold opened
  dsimp only
  split
  · split
    · exact grows_failConnection _
    · exact .of_eq rfl rfl rfl rfl
  · exact grows_failConnection _
  · exact .refl c

theorem grows_aborts (k : ConnectID) (reason : ClientError) : Grows c (c.aborts k reason) := by
  unfold aborts
  split
  · split <;> exact .of_eq rfl rfl rfl rfl
  · split <;> exact .of_eq rfl rfl rfl rfl
  · split
    · exact grows_failConnection (c := modifyConnect _ _ _) reason
    · exact .refl c

theorem grows_leave (id : Nat) (a : LinkID) : Grows c (c.leave id a) :=
  (grows_endSession (c := c.closeHandler) .disconnect).trans (grows_announceDisconnected a none false)

/-- `c'` is `c` that has ended what was under way, and then said goodbye. -/
def SaysGoodbye (c c' : Lifecycle) : Prop :=
  ∃ d : Lifecycle, Grows c d ∧ d.link = c.link ∧ d.status = .disconnected ∧
    ShowsSame (d.tell (.goodbye c.link (!(c.links c.link).cryptoInitComplete))) c'

theorem grows_abandon (aborted : Bool) (id : Nat) :
    (Grows c (c.abandon.sayGoodbye aborted) ∨ SaysGoodbye c (c.abandon.sayGoodbye aborted)) ∧
      Grows c (c.abandon.leave id c.link) := by
  have habandon : Grows c c.abandon := grows_rejectAfter (c := abortDown _)
  refine ⟨?_, habandon.trans (grows_leave id c.link)⟩
  rw [sayGoodbye]
  split
  · refine Or.inr ⟨c.abandon, habandon, link_abandon, status_abandon, ?_⟩
    rw [link_abandon, crypto_abandon]
    exact ⟨rfl, rfl, rfl, rfl⟩
  · exact Or.inl habandon

/-- `disconnect()` of a client that holds a session may say goodbye. -/
theorem grows_disconnect (aborted : Bool) :
    Grows c (c.disconnect aborted) ∨ c.status ≠ .disconnected ∧
      (c.status = .connected ∨ (c.links c.link).cryptoInitComplete = true) ∧
      SaysGoodbye c (c.disconnect aborted) := by
  rw [disconnect]
  dsimp only
  split
  · exact Or.inl (.of_eq rfl rfl rfl rfl)
  · rename_i hgoing
    obtain ⟨hgoodbye, hleave⟩ := grows_abandon
      (c := { c with stopped := true, disconnects := c.disconnects + 1 }) aborted (c.disconnects + 1)
    split
    · rename_i hholds
      exact hgoodbye.imp_right fun h => ⟨fun hs => hgoing (Or.inr hs), hholds, h⟩
    · exact Or.inl hleave

theorem grows_goodbyeEnded : Grows c c.goodbyeEnded := by
  rw [goodbyeEnded]
  split
  · exact grows_leave _ _
  · exact .refl c

theorem grows_left : Grows c c.left := by
  rw [left]
  split
  · split <;> exact .of_eq rfl rfl rfl rfl
  · exact .refl c

theorem grows_slept : Grows c c.slept := by
  unfold slept
  split
  · rename_i attempt _
    split
    · exact .of_eq rfl rfl rfl rfl
    · exact grows_connect (c := { c with loopAttempt := attempt }) attempt true true none
  · exact .refl c

theorem grows_resumed : Grows c c.resumed := by
  unfold resumed
  split
  · split
    · split
      · exact .of_eq rfl rfl rfl rfl
      · exact grows_round _ _
    · split
      · exact .of_eq rfl rfl rfl rfl
      · exact grows_round _ _
    · exact .refl c
  · exact .refl c

/-! ### Rows -/

theorem grows_emitRaw : Grows c c.emitRaw := by
  rw [emitRaw]
  split
  · exact grows_enqueue _
  · exact .refl c

theorem grows_emitKicked (kicked : Bool) : Grows c (c.emitKicked kicked) := by
  rw [emitKicked]
  split
  · exact grows_enqueue _
  · exact .refl c

theorem grows_welcomeFinished : Grows c c.welcomeFinished := by
  rw [welcomeFinished]
  split
  · split
    · exact grows_enqueue (c := c.updateView .finish) _
    · exact .of_eq rfl rfl rfl rfl
  · exact .refl c

theorem grows_removedByServer (reason : Nat) : Grows c (c.removedByServer reason) :=
  (grows_handleConnectionClosed _).trans (.of_eq rfl rfl rfl rfl)

theorem grows_foldl_updateView (ops : List (ViewStore.Op ClientError)) :
    Grows c (ops.foldl updateView c) := by
  induction ops generalizing c with
  | nil => exact .refl c
  | cons op ops ih => exact ih (c := c.updateView op)

theorem grows_handleInitServer (params : Params) (valid : Bool) :
    Grows c (c.handleInitServer params valid).1 := by
  rw [handleInitServer]
  split
  · cases valid with
    | true => exact grows_markConnected (c := c.updateView (.seedServer params))
    | false => exact .of_eq rfl rfl rfl rfl
  · exact .refl c

theorem grows_handleRow (row : Row) : Grows c (c.handleRow row).1 := by
  unfold handleRow
  split
  · exact .refl c
  · cases row with
    | voice => exact grows_enqueue _
    | cryptoInit => exact .of_eq rfl rfl rfl rfl
    | initserver params valid => exact grows_handleInitServer params valid
    | error code =>
      cases code with
      | none => exact .refl c
      | some code => exact grows_failConnection _
    | channellistfinished => exact grows_welcomeFinished
    | channellist row =>
      dsimp only
      split <;> exact .of_eq rfl rfl rfl rfl
    | selfLeft reason kicked self =>
      dsimp only
      have hdeleted : Grows c (c.updateView (.rosterDelete self)) := .of_eq rfl rfl rfl rfl
      generalize c.updateView (.rosterDelete self) = d at hdeleted ⊢
      have hemitted : Grows d (d.emitServerEvent.emitKicked kicked) :=
        (grows_enqueue (.serverEvent d.link)).trans (grows_emitKicked kicked)
      exact (hdeleted.trans hemitted).trans ((grows_removedByServer reason).trans grows_emitRaw)
    | notification event kicked ops =>
      dsimp only
      have hviewed := grows_foldl_updateView (c := c) (ops.filter VoiceClient.ofServer)
      generalize (ops.filter VoiceClient.ofServer).foldl updateView c = d at hviewed ⊢
      have hemitted : Grows d (if event then d.emitServerEvent else d) := by
        split
        · exact grows_enqueue _
        · exact .refl _
      exact (hviewed.trans hemitted).trans ((grows_emitKicked kicked).trans grows_emitRaw)
    | unwritten err => exact grows_triggerClose (some err)
    | malformed => exact .refl c

theorem grows_handleRows (rows : List Row) : Grows c (c.handleRows rows) := by
  induction rows generalizing c with
  | nil => exact .refl c
  | cons row rows ih =>
    simp only [handleRows]
    refine (grows_handleRow row).trans ?_
    split
    · exact ih
    · exact grows_handleReceiveError

/-! ### Steps -/

/-- What has nothing to do with the queue or with the lines that are written. -/
def Event.isPlain : Event → Bool
  | .deliver | .issue | .handOn _ | .disconnect _ => false
  | _ => true

theorem grows_step {e : Event} (he : e.isPlain) : Grows c (c.step e) := by
  have hhappen : Grows c (c.happen e) := by
    cases e with
    | connect signal aborted => exact grows_connect 1 false signal aborted
    | woken k => exact grows_woken k
    | resolved k result => exact grows_resolved k result
    | opened k result => exact grows_opened k result
    | aborts k reason => exact grows_aborts k reason
    | disconnect aborted => cases he
    | goodbyeEnded => exact grows_goodbyeEnded
    | left => exact grows_left
    | closes err => exact grows_triggerClose err
    | datagram rows =>
      simp only [happen, receive]
      split
      · exact grows_handleRows rows
      · exact .refl c
    | slept => exact grows_slept
    | resumed => exact grows_resumed
    | deliver => cases he
    | delivered =>
      simp only [happen, Lifecycle.delivered]
      split <;> exact .of_eq rfl rfl rfl rfl
    | issue => cases he
    | cut n => exact grows_modifyLine n fun _ => rfl
    | returns n => exact grows_modifyLine n fun _ => rfl
    | handOn n => cases he
    | read op =>
      simp only [happen]
      split <;> exact .of_eq rfl rfl rfl rfl
    | listen raw => exact .of_eq rfl rfl rfl rfl
  exact hhappen

/-- What was delivered, and after it what is in the queue, is what was queued. -/
def Fifo (c : Lifecycle) : Prop := c.deliveredLog ++ c.queue = c.queuedLog

theorem Fifo.grows (h : c.Fifo) (hgrows : Grows c c') : c'.Fifo := by
  obtain ⟨⟨l, htrace, hqueue, hplain⟩, -⟩ := hgrows
  have hnone : l.filterMap Shown.delivered? = [] := by
    rw [List.filterMap_eq_nil_iff]
    exact fun shown hmem => Shown.delivered?_of_isPlain (hplain shown hmem)
  rw [Fifo, deliveredLog, queuedLog, htrace, hqueue, List.filterMap_append, List.filterMap_append,
    hnone, List.append_nil, ← List.append_assoc]
  exact congrArg (· ++ l.filterMap Shown.queued?) h

theorem Fifo.deliver (h : c.Fifo) : c.deliver.Fifo := by
  rw [Lifecycle.deliver]
  split
  · exact h
  · rename_i delivery queue hqueue
    rw [Fifo, hqueue, List.append_cons] at h
    rw [Fifo, deliveredLog, queuedLog, Lifecycle.tell, List.filterMap_append, List.filterMap_append]
    have hnone : [Shown.delivered delivery].filterMap Shown.queued? = [] := rfl
    rw [hnone, List.append_nil]
    exact h

/-- What is shown is neither queued nor delivered. -/
theorem Fifo.tell (h : c.Fifo) {shown : Shown} (hqueued : shown.queued? = none)
    (hdelivered : shown.delivered? = none) : (c.tell shown).Fifo := by
  rw [Fifo, deliveredLog, queuedLog, Lifecycle.tell, List.filterMap_append, List.filterMap_append,
    List.filterMap_cons_none hqueued, List.filterMap_cons_none hdelivered, List.filterMap_nil,
    List.filterMap_nil, List.append_nil, List.append_nil]
  exact h

theorem Fifo.step (h : c.Fifo) (e : Event) : (c.step e).Fifo := by
  by_cases he : e.isPlain
  · exact h.grows (grows_step he)
  · cases e with
    | disconnect aborted =>
      rcases grows_disconnect (c := c) aborted with hgrows | ⟨-, -, d, hgrows, -, -, htold⟩
      · exact h.grows hgrows
      · have hsaid : (d.tell (.goodbye c.link (!(c.links c.link).cryptoInitComplete))).Fifo :=
          (h.grows hgrows).tell rfl rfl
        show (c.disconnect aborted).Fifo
        rw [Fifo, deliveredLog, queuedLog, htold.trace, htold.queue]
        exact hsaid
    | deliver => exact h.deliver
    | issue =>
      show c.issue.Fifo
      rw [issue]
      split
      · exact Fifo.tell (c := { modifyLine _ _ _ with nextLine := _ }) h rfl rfl
      · exact h
    | handOn n =>
      show (c.handOn n).Fifo
      rw [handOn]
      split
      · exact h.tell rfl rfl
      · exact h
    | _ => exact absurd rfl he

theorem fifo_run (reconnect : Option ReconnectOptions) (addressable : Bool) (es : List Event) :
    (run Lifecycle.step (new reconnect addressable) es).Fifo :=
  run_invariant (fun _ e h => h.step e) es rfl

end Lifecycle

end Teamspeak.Client
