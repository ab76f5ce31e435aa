import Teamspeak.Client.Lifecycle.Attempts
import Teamspeak.Client.View.Ended

/-!
# What a step can do

The account of a client is what becomes of its attempts, sessions, calls and view.
`Does p o o'` is one thing that can happen to it: the attempt fails or completes, the session
drops, a call begins the next attempt, waits for something or returns, a client says goodbye,
leaves and has left.  All else is a `Frame`.  With `p` a failure may end the view of a client
that is disconnected already.

* `does_step`: every step does such things, one after the other.
-/

namespace Teamspeak.Client

structure Account where
  trace : List Shown
  status : ClientStatus
  link : LinkID
  leaving : Option Leaving
  session : Option LinkID
  promise : LinkID → Option (Except ClientError Unit)
  waiting : ConnectID → Waiting
  callLink : ConnectID → LinkID
  nextConnect : ConnectID
  view : ViewStore ClientError

namespace Account

variable {o o' o'' : Account}

/-- What was told stays told, and no other calls are there, or wait for anything else. -/
structure Later (o o' : Account) : Prop where
  told : o.trace ⊆ o'.trace
  link : o'.link = o.link
  waiting : o'.waiting = o.waiting
  callLink : o'.callLink = o.callLink
  nextConnect : o'.nextConnect = o.nextConnect

theorem Later.refl (o : Account) : Later o o := ⟨fun _ => id, rfl, rfl, rfl, rfl⟩

theorem Later.trans (h : Later o o') (h' : Later o' o'') : Later o o'' where
  told := fun _ hin => h'.told (h.told hin)
  link := h'.link.trans h.link
  waiting := h'.waiting.trans h.waiting
  callLink := h'.callLink.trans h.callLink
  nextConnect := h'.nextConnect.trans h.nextConnect

/-- No end of a session is told. -/
def Endless (o o' : Account) : Prop :=
  ∀ a cause, .sessionEnd a cause ∈ o'.trace → .sessionEnd a cause ∈ o.trace

/-- Nothing happens but what this module is not about. -/
structure Frame (o o' : Account) : Prop where
  later : Later o o'
  status : o'.status = o.status
  leaving : o'.leaving = o.leaving
  session : o'.session = o.session
  promise : ∀ a, 0 < a → o'.promise a = o.promise a
  view : ViewStore.Kept o.view o'.view
  endless : Endless o o'

theorem Frame.refl (o : Account) : Frame o o where
  later := .refl o
  status := rfl
  leaving := rfl
  session := rfl
  promise _ _ := rfl
  view := .refl _
  endless _ _ := id

theorem Frame.trans (h : Frame o o') (h' : Frame o' o'') : Frame o o'' where
  later := h.later.trans h'.later
  status := h'.status.trans h.status
  leaving := h'.leaving.trans h.leaving
  session := h'.session.trans h.session
  promise a ha := (h'.promise a ha).trans (h.promise a ha)
  view := h.view.trans h'.view
  endless a cause hin := h.endless a cause (h'.endless a cause hin)

theorem Frame.of_eq (h : o' = o) : Frame o o' := h ▸ .refl o

/-! ### What else can happen -/

def settles (o : Account) (a : LinkID) (result : Except ClientError Unit) (b : LinkID) :
    Option (Except ClientError Unit) :=
  if b = a then some result else o.promise b

/-- The attempt fails. -/
structure Fails (o o' : Account) (error : ClientError) : Prop where
  later : Later o o'
  status : o'.status = .disconnected
  leaving : o'.leaving = o.leaving
  promise : ∀ a, 0 < a → o'.promise a = o.settles o.link (.error error) a
  view : ViewStore.Kept (o.view.end_ error.cause) o'.view
  failed : .attemptFailed o.link ∈ o'.trace
  disconnected : ∃ clock w, .queued (.disconnected o.link (some (error.asError clock)) w) ∈ o'.trace
  endless : Endless o o'

/-- The session drops. -/
structure Drops (o o' : Account) (error : ClientError) : Prop where
  later : Later o o'
  status : o'.status = .disconnected
  leaving : o'.leaving = o.leaving
  promise : ∀ a, 0 < a → o'.promise a = o.promise a
  view : ViewStore.Kept (o.view.end_ error.cause) o'.view
  disconnected : ∃ w, .queued (.disconnected o.link (some error) w) ∈ o'.trace
  ends : ∀ a cause, .sessionEnd a cause ∈ o'.trace →
    .sessionEnd a cause ∈ o.trace ∨ a = o.link ∧ cause = error.cause

/-- The attempt completes. -/
structure Connects (o o' : Account) : Prop where
  later : Later o o'
  status : o'.status = .connected
  leaving : o'.leaving = o.leaving
  promise : ∀ a, 0 < a → o'.promise a = o.settles o.link (.ok ()) a
  view : ViewStore.Kept o.view o'.view
  started : .sessionStart o.link ∈ o'.trace
  endless : Endless o o'

/-- Call `k` is new, or has waited for what comes before an attempt; the other calls are as
they were. -/
structure Calls (o o' : Account) (k : ConnectID) : Prop where
  others : ∀ j, j ≠ k → o'.waiting j = o.waiting j ∧ o'.callLink j = o.callLink j
  call : k = o.nextConnect ∧ o'.nextConnect = k + 1 ∨
    (o.waiting k).disconnects?.isSome ∧ o'.nextConnect = o.nextConnect

/-- Call `k` begins the next attempt. -/
structure Begins (o o' : Account) (k : ConnectID) : Prop where
  calls : Calls o o' k
  waiting : o'.waiting k = .resolving
  callLink : o'.callLink k = o.link + 1
  told : o.trace ⊆ o'.trace
  link : o'.link = o.link + 1
  status : o'.status = .connecting
  leaving : o'.leaving = none
  promise : ∀ a, 0 < a → o'.promise a = if a = o.link + 1 then none else o.promise a
  view : o'.view.accepting = true
  endless : Endless o o'

/-- Call `k` waits for something before its attempt begins, or is over before. -/
structure Takes (o o' : Account) (k : ConnectID) : Prop where
  calls : Calls o o' k
  waiting : (o'.waiting k).disconnects?.isSome ∨ ∃ e, o'.waiting k = .done (.error e)
  callLink : o'.callLink k = 0 ∨ o'.callLink k = o.callLink k ∧ (o.waiting k).disconnects?.isSome
  same : o' =
    { o with waiting := o'.waiting, callLink := o'.callLink, nextConnect := o'.nextConnect }

/-- Call `k`, whose attempt has begun, goes on to wait for what comes next. -/
def Goes (o o' : Account) (k : ConnectID) : Prop :=
  (o.waiting k = .resolving ∨ o.waiting k = .opening) ∧
    ∃ waiting, (waiting = .opening ∨ waiting = .settling) ∧
      o' = { o with waiting := fun j => if j = k then waiting else o.waiting j }

/-- Call `k` returns what the promise of its attempt has come to. -/
def Returns (o o' : Account) (k : ConnectID) : Prop :=
  o.waiting k = .settling ∧ ∃ result, o.promise (o.callLink k) = some result ∧
    o' = { o with waiting := fun j => if j = k then .done result else o.waiting j }

/-- The client ends what is under way, and may say goodbye. -/
structure Quits (o o' : Account) : Prop where
  later : Later o o'
  status : o'.status = .disconnected
  leaving : ∃ l, o'.leaving = some l ∧ l.link = o.link ∧ l.goodbye = true
  promise : ∀ a, 0 < a → o'.promise a = o.promise a
  view : ViewStore.Kept o.view o'.view
  failed : o.status = .connecting → .attemptFailed o.link ∈ o'.trace
  endless : Endless o o'

/-- The goodbye to link `a` is through. -/
structure Leaves (o o' : Account) (a : LinkID) : Prop where
  later : Later o o'
  status : o'.status = o.status
  leaving : ∃ l, o'.leaving = some l ∧ l.link = a ∧ l.goodbye = false
  promise : ∀ a, 0 < a → o'.promise a = o.promise a
  view : ViewStore.Kept (o.view.end_ .disconnect) o'.view
  disconnected : .queued (.disconnected a none false) ∈ o'.trace
  ends : ∀ b cause, .sessionEnd b cause ∈ o'.trace →
    .sessionEnd b cause ∈ o.trace ∨ b = a ∧ cause = .disconnect

/-- `disconnect()` is through, and the attempt it has interrupted fails. -/
def Left (o o' : Account) (a : LinkID) : Prop :=
  ∃ clock, o' = { o with
    leaving := none
    promise := fun b => if b = a then
      (o.promise a).or (some (.error (.made .notConnected clock))) else o.promise b }

/-- One thing that can happen. -/
inductive Does (p : Prop) (o o' : Account) : Prop
  | frame (h : Frame o o')
  | overtaken (hp : p) (error : ClientError) (hs : o.status = .disconnected)
    (h : Frame { o with view := o.view.end_ error.cause } o')
  | fails (error : ClientError) (hs : o.status = .connecting) (h : Fails o o' error)
  | drops (error : ClientError) (hs : o.status = .connected) (h : Drops o o' error)
  | connects (hs : o.status = .connecting) (h : Connects o o')
  | begins (k : ConnectID) (hs : o.status = .disconnected) (hl : o.leaving = none)
    (h : Begins o o' k)
  | takes (k : ConnectID) (h : Takes o o' k)
  | goes (k : ConnectID) (h : Goes o o' k)
  | returns (k : ConnectID) (h : Returns o o' k)
  | quits (hp : ¬p) (hs : o.status ≠ .disconnected) (h : Quits o o')
  | leaves (l : Leaving) (hs : o.status = .disconnected) (hl : o.leaving = some l)
    (hg : l.goodbye = true) (h : Leaves o o' l.link)
  | left (l : Leaving) (hs : o.status = .disconnected) (hl : o.leaving = some l)
    (hg : l.goodbye = false) (h : Left o o' l.link)

end Account

namespace Lifecycle

open Account

def account (c : Lifecycle) : Account where
  trace := c.trace
  status := c.status
  link := c.link
  leaving := c.leaving
  session := c.session
  promise a := (c.links a).promise
  waiting k := (c.connects k).waiting
  callLink k := (c.connects k).link
  nextConnect := c.nextConnect
  view := c.view

variable {c c' : Lifecycle}

/-! ### Frames -/

theorem frame_tell {shown : Shown} (h : ∀ a cause, shown ≠ .sessionEnd a cause) :
    Frame c.account (c.tell shown).account :=
  { Frame.refl c.account with
    later := ⟨List.subset_append_left _ _, rfl, rfl, rfl, rfl⟩
    endless := fun a cause hin => (List.mem_append.mp hin).resolve_right fun hin =>
      h a cause (List.mem_singleton.mp hin).symm }

theorem frame_enqueue (delivery : Queued) : Frame c.account (c.enqueue delivery).account :=
  frame_tell (c := { c with queue := c.queue ++ [delivery] }) fun a cause heq => by cases heq

theorem frame_updateView {op : ViewStore.Op ClientError} (hreset : op ≠ .reset)
    (hend : ∀ cause, op ≠ .end_ cause) : Frame c.account (c.updateView op).account where
  later := ⟨fun _ => id, rfl, rfl, rfl, rfl⟩
  status := rfl
  leaving := rfl
  session := rfl
  promise _ _ := rfl
  view := ViewStore.kept_step hreset hend
  endless _ _ := id

theorem account_modifyLink (a : LinkID) {f : Link → Link}
    (hf : ∀ link, (f link).promise = link.promise) : (c.modifyLink a f).account = c.account := by
  have : (fun b => ((c.modifyLink a f).links b).promise) = fun b => (c.links b).promise := by
    funext b
    rw [links_modifyLink]
    split
    · rename_i h
      rw [hf, h]
    · rfl
  rw [account, this]
  rfl

theorem account_modifyConnect (k : ConnectID) {f : Connecting → Connecting}
    (hf : ∀ call, (f call).waiting = call.waiting ∧ (f call).link = call.link) :
    (c.modifyConnect k f).account = c.account := by
  have hsame : ∀ j, ((c.modifyConnect k f).connects j).waiting = (c.connects j).waiting ∧
      ((c.modifyConnect k f).connects j).link = (c.connects j).link := by
    intro j
    rw [connects_modifyConnect]
    split
    · rename_i h
      rw [h]
      exact hf _
    · exact ⟨rfl, rfl⟩
  have hwaiting : (fun j => ((c.modifyConnect k f).connects j).waiting) =
      fun j => (c.connects j).waiting := funext fun j => (hsame j).1
  have hlink : (fun j => ((c.modifyConnect k f).connects j).link) =
      fun j => (c.connects j).link := funext fun j => (hsame j).2
  rw [account, hwaiting, hlink]
  rfl

@[simp] theorem account_closeHandler : c.closeHandler.account = c.account :=
  account_modifyLink _ fun _ => rfl

@[simp] theorem account_abortDown : c.abortDown.account = c.account :=
  account_modifyLink _ fun _ => rfl

theorem frame_willReconnect (err : ClientError) (attempt : Nat) :
    Frame c.account (c.willReconnect err attempt).1.account := by
  rw [willReconnect]
  split
  · exact .refl _
  · split
    · exact .refl _
    · split
      · exact .refl _
      · dsimp only
        split
        · exact .refl _
        · refine frame_tell (c := { c with retryAnswer := _ }) ?_
          intro a cause heq
          cases heq

theorem frame_round (err : ClientError) (attempt : Nat) :
    Frame c.account (c.round err attempt).account := by
  rw [round]
  split
  · exact .refl c.account
  · split
    · exact .refl c.account
    · split
      · exact .refl c.account
      · dsimp only
        split
        · exact frame_willReconnect err attempt
        · exact frame_willReconnect err attempt

theorem frame_scheduleReconnect (err : ClientError) :
    Frame c.account (c.scheduleReconnect err).account := by
  rw [scheduleReconnect]
  split
  · exact .refl _
  · exact frame_round err 1

theorem frame_announceDisconnected (a : LinkID) (cause : Option ClientError)
    (willReconnect : Bool) :
    Frame c.account (c.announceDisconnected a cause willReconnect).account :=
  frame_enqueue
    (c := { c with announced := c.announced + 1, disconnectedDelivered := some c.announced }) _

theorem frame_emitRaw : Frame c.account c.emitRaw.account := by
  rw [emitRaw]
  split
  · exact frame_enqueue _
  · exact .refl _

theorem frame_emitKicked (kicked : Bool) : Frame c.account (c.emitKicked kicked).account := by
  rw [emitKicked]
  split
  · exact frame_enqueue _
  · exact .refl _

theorem frame_welcomeFinished : Frame c.account c.welcomeFinished.account := by
  have hfinished : Frame c.account (c.updateView .finish).account :=
    frame_updateView (fun heq => by cases heq) fun cause heq => by cases heq
  rw [welcomeFinished]
  split
  · split
    · exact hfinished.trans (frame_enqueue _)
    · exact hfinished
  · exact .refl _

theorem frame_foldl_updateView (ops : List (ViewStore.Op ClientError)) :
    Frame c.account ((ops.filter VoiceClient.ofServer).foldl updateView c).account := by
  induction ops generalizing c with
  | nil => exact .refl _
  | cons op ops ih =>
    rw [List.filter_cons]
    split
    · rename_i hop
      have hviewed : Frame c.account (c.updateView op).account := by
        apply frame_updateView
        · rintro rfl
          cases hop
        · rintro cause rfl
          cases hop
      exact hviewed.trans ih
    · exact ih

/-! ### Attempts and sessions -/

theorem account_settle (a : LinkID) {f : Link → Link} {result : Except ClientError Unit}
    (hf : ∀ link, (f link).promise = some result) :
    (c.modifyLink a f).account = { c.account with promise := c.account.settles a result } := by
  have : (fun b => ((c.modifyLink a f).links b).promise) =
      fun b => if b = a then some result else (c.links b).promise := by
    funext b
    rw [links_modifyLink]
    split
    · exact hf _
    · rfl
  rw [account, this]
  rfl

theorem account_rejectAfter (h : (c.links c.link).awaited = true) :
    c.rejectAfter.account = { c.account with trace := c.trace ++ [.attemptFailed c.link] } := by
  rw [Link.awaited, Bool.and_eq_true, Bool.not_eq_true'] at h
  rw [rejectAfter, if_neg (by simp [h.2]), failAttempt, if_pos h.1]
  exact account_modifyLink (c := c.tell (.attemptFailed c.link)) _ fun _ => rfl

theorem account_reject (h : (c.links c.link).awaited = true) (error : ClientError) :
    (c.reject error).account =
      { c.account with
        trace := c.trace ++ [.attemptFailed c.link]
        promise := c.account.settles c.link (.error error) } := by
  have hfailed := account_rejectAfter h
  rw [Link.awaited, Bool.and_eq_true, Bool.not_eq_true'] at h
  rw [rejectAfter, if_neg (by simp [h.2])] at hfailed
  rw [reject, if_neg (by simp [h.2]), account_settle _ fun _ => rfl, hfailed]
  rfl

theorem frame_ite_willReconnect (p : Prop) [Decidable p] (err : ClientError) (attempt : Nat) :
    Frame c.account (if p then c.willReconnect err attempt else (c, false)).1.account := by
  split
  · exact frame_willReconnect err attempt
  · exact .refl _

theorem disconnected_mem (a : LinkID) (cause : Option ClientError) (willReconnect : Bool) :
    .queued (.disconnected a cause willReconnect) ∈
      (c.announceDisconnected a cause willReconnect).trace :=
  List.mem_append_right _ (List.mem_singleton.mpr rfl)

theorem fails_failConnection (hs : c.status = .connecting)
    (h : (c.links c.link).awaited = true) (error : ClientError) :
    Fails c.account (c.failConnection error).account error := by
  have hstatus : (c.reject error).status = .connecting :=
    (congrArg Account.status (account_reject h error)).trans hs
  have hlink : (c.reject error).link = c.link := congrArg Account.link (account_reject h error)
  simp only [failConnection, hs, reduceCtorEq, if_false]
  rw [if_neg (by simp [updateView, hstatus])]
  generalize hd : (({ (c.reject error).updateView (.end_ error.cause) with
    status := .disconnected } : Lifecycle).closeHandler) = d
  have hdone : d.account =
      { c.account with
        trace := c.trace ++ [.attemptFailed c.link]
        status := .disconnected
        promise := c.account.settles c.link (.error error)
        view := c.view.end_ error.cause } := by
    rw [← hd, account_closeHandler]
    have hrejected := account_reject h error
    have hview : (c.reject error).view = c.view := congrArg Account.view hrejected
    show { (c.reject error).account with
      status := .disconnected
      view := (c.reject error).view.end_ error.cause } = _
    rw [hview, hrejected]
  have hasked := frame_ite_willReconnect (c := d) (d.loop.isSome = true)
    (error.asError d.clock) (d.loopAttempt + 1)
  generalize (if d.loop.isSome = true then d.willReconnect (error.asError d.clock) (d.loopAttempt + 1)
    else (d, false)) = asked at hasked ⊢
  have htold := disconnected_mem (c := asked.1) d.link (some (error.asError d.clock)) asked.2
  have hframe := hasked.trans
    (frame_announceDisconnected d.link (some (error.asError d.clock)) asked.2)
  have hdlink : d.link = c.link := congrArg Account.link hdone
  rw [hdlink] at htold hframe ⊢
  rw [hdone] at hframe
  exact
    { later := ⟨fun _ hin => hframe.later.told (List.mem_append_left _ hin), hframe.later.link,
        hframe.later.waiting, hframe.later.callLink, hframe.later.nextConnect⟩
      status := hframe.status
      leaving := hframe.leaving
      promise := hframe.promise
      view := hframe.view
      failed := hframe.later.told (List.mem_append_right _ (List.mem_singleton.mpr rfl))
      disconnected := ⟨d.clock, asked.2, htold⟩
      endless := fun a cause hin => by
        refine (List.mem_append.mp (hframe.endless a cause hin)).resolve_right fun hin => ?_
        cases List.mem_singleton.mp hin }

/-- What is no attempt has no promise that anybody waits for. -/
theorem frame_modifyLink_zero (f : Link → Link) : Frame c.account (c.modifyLink 0 f).account where
  later := ⟨fun _ => id, rfl, rfl, rfl, rfl⟩
  status := rfl
  leaving := rfl
  session := rfl
  promise a ha := by
    show ((c.modifyLink 0 f).links a).promise = (c.links a).promise
    rw [links_modifyLink, if_neg ha.ne']
  view := .refl _
  endless _ _ := id

/-- A client that is disconnected has nothing to fail but its view. -/
theorem frame_failConnection (hs : c.status = .disconnected)
    (hawaited : (c.links c.link).awaited = false)
    (hbegun : 0 < c.link → (c.links c.link).traced = true) (error : ClientError) :
    Frame { c.account with view := c.view.end_ error.cause } (c.failConnection error).account := by
  have hrejected : Frame c.account (c.reject error).account := by
    rw [reject]
    split
    · exact .refl _
    · rename_i hsettled
      have huntraced : (c.links c.link).traced = false := by
        rw [Link.awaited, Bool.eq_false_iff.mpr hsettled, Bool.not_false, Bool.and_true] at hawaited
        exact hawaited
      have hlink : c.link = 0 := by
        by_contra hne
        cases huntraced.symm.trans (hbegun (Nat.pos_of_ne_zero hne))
      simp only [failAttempt, huntraced, Bool.false_eq_true, if_false]
      rw [hlink]
      exact (frame_modifyLink_zero _).trans (frame_modifyLink_zero _)
  have hstatus : (c.reject error).status = .disconnected := hrejected.status.trans hs
  have hview : (c.reject error).view = c.view := by
    rw [reject, failAttempt]
    split
    · rfl
    · split <;> rfl
  simp only [failConnection, hs, reduceCtorEq, if_false]
  rw [if_pos (by simp [updateView, hstatus])]
  exact
    { hrejected with
      later := ⟨hrejected.later.told, hrejected.later.link, hrejected.later.waiting,
        hrejected.later.callLink, hrejected.later.nextConnect⟩
      view := by
        rw [← hview]
        exact .refl _
      endless := hrejected.endless }

theorem does_failConnection {p : Prop} (h : c.outline.Sound) (hp : c.status = .disconnected → p)
    (error : ClientError) : Does p c.account (c.failConnection error).account := by
  cases hs : c.status with
  | connected =>
    rw [failConnection, if_pos hs]
    exact .frame (.refl _)
  | connecting => exact .fails error hs (fails_failConnection hs (h.connecting hs).1 error)
  | disconnected =>
    exact .overtaken (hp hs) error hs
      (frame_failConnection hs (h.disconnected hs) h.wired.begun error)

theorem account_endSession (cause : Cause ClientError) : (c.endSession cause).account =
    { c.account with
      view := c.view.end_ cause
      session := none
      trace := c.trace ++ c.session.toList.map fun a => .sessionEnd a cause } := by
  have hview : (c.updateView (.end_ cause)).session = c.session := rfl
  simp only [endSession, hview]
  cases hs : c.session with
  | none =>
    simp only [Option.toList_none, List.map_nil, List.append_nil]
    rw [← hs]
    rfl
  | some a => rfl

theorem drops_handleConnectionClosed (h : c.outline.Sound) (hs : c.status = .connected)
    (err : Option ClientError) : Drops c.account (c.handleConnectionClosed err).account
      (err.getD (.made .closed c.clock)) := by
  have hstatus : c.abortDown.status = .connected := hs
  have hsession : c.abortDown.session = some c.link := (h.connected hs).2.1
  rw [handleConnectionClosed, if_neg (by simp [hs])]
  dsimp only
  rw [if_neg (by simp [hstatus])]
  change Drops c.account _ (err.getD (.made .closed c.abortDown.clock))
  generalize err.getD (.made .closed c.abortDown.clock) = cause
  generalize hd : ({ c.abortDown with
    status := .disconnected
    lastDrop := some cause } : Lifecycle).endSession cause.cause = d
  have hdone : d.account =
      { c.account with
        status := .disconnected
        view := c.view.end_ cause.cause
        session := none
        trace := c.trace ++ [.sessionEnd c.link cause.cause] } := by
    rw [← hd, account_endSession]
    simp only [hsession, Option.toList_some, List.map_cons, List.map_nil]
    change ({ c.abortDown.account with
      status := .disconnected
      view := c.view.end_ cause.cause
      session := none
      trace := c.trace ++ [Shown.sessionEnd c.link cause.cause] } : Account) = _
    rw [account_abortDown]
  have hasked := frame_willReconnect (c := d) cause (d.loopAttempt + 1)
  generalize d.willReconnect cause (d.loopAttempt + 1) = asked at hasked ⊢
  have hdlink : d.link = c.link := congrArg Account.link hdone
  rw [hdlink]
  have htold := disconnected_mem (c := asked.1) c.link (some cause) asked.2
  have hscheduled := frame_scheduleReconnect
    (c := asked.1.announceDisconnected c.link (some cause) asked.2) cause
  have hframe := (hasked.trans (frame_announceDisconnected c.link (some cause) asked.2)).trans
    hscheduled
  rw [hdone] at hframe
  exact
    { later := ⟨fun _ hin => hframe.later.told (List.mem_append_left _ hin), hframe.later.link,
        hframe.later.waiting, hframe.later.callLink, hframe.later.nextConnect⟩
      status := hframe.status
      leaving := hframe.leaving
      promise := hframe.promise
      view := hframe.view
      disconnected := ⟨asked.2, hscheduled.later.told htold⟩
      ends := fun a cause' hin => by
        rcases List.mem_append.mp (hframe.endless a cause' hin) with hin | hin
        · exact Or.inl hin
        · rw [List.mem_singleton, Shown.sessionEnd.injEq] at hin
          exact Or.inr hin }

theorem does_handleConnectionClosed {p : Prop} (h : c.outline.Sound) (err : Option ClientError) :
    Does p c.account (c.handleConnectionClosed err).account := by
  cases hs : c.status with
  | disconnected =>
    rw [handleConnectionClosed, if_pos hs]
    exact .frame (.refl _)
  | connected => exact .drops _ hs (drops_handleConnectionClosed h hs err)
  | connecting =>
    have hstatus : c.abortDown.status = .connecting := hs
    have hclosed : c.handleConnectionClosed err =
        c.abortDown.failConnection (err.getD (.made .closedEarly c.abortDown.clock)) := by
      rw [handleConnectionClosed, if_neg (by simp [hs])]
      exact if_pos (by simp [hstatus])
    have hawaited : (c.abortDown.links c.abortDown.link).awaited = true := by
      have hdowns := congrArg Outline.awaited (outline_abortDown (c := c))
      exact hdowns.trans (h.connecting hs).1
    rw [hclosed, ← account_abortDown]
    exact .fails _ hstatus (fails_failConnection hstatus hawaited _)

theorem does_triggerClose {p : Prop} (h : c.outline.Sound) (err : Option ClientError) :
    Does p c.account (c.triggerClose err).account := by
  rw [triggerClose]
  split
  · rw [← account_closeHandler]
    exact does_handleConnectionClosed (by rwa [outline_closeHandler]) err
  · exact .frame (.refl _)

theorem does_handleReceiveError {p : Prop} (h : c.outline.Sound)
    (hp : c.status = .disconnected → p) : Does p c.account c.handleReceiveError.account := by
  rw [handleReceiveError]
  split
  · exact .frame (.refl _)
  · exact does_failConnection h hp _

theorem account_resolve (h : (c.links c.link).settled = false) :
    c.resolve.account = { c.account with promise := c.account.settles c.link (.ok ()) } := by
  have : (fun b => (c.resolve.links b).promise) =
      fun b => if b = c.link then some (.ok ()) else (c.links b).promise := by
    funext b
    rw [resolve, links_modifyLink]
    split
    · rw [h]
      rfl
    · rfl
  rw [account, this]
  rfl

theorem does_markConnected {p : Prop} (h : c.outline.Sound) :
    Does p c.account c.markConnected.account := by
  rw [markConnected]
  split
  · exact .frame (.refl _)
  · rename_i hgoing
    rw [not_or, not_not, Bool.not_eq_true] at hgoing
    obtain ⟨hs, hsettled⟩ := hgoing
    have hawaited : (c.links c.link).awaited = true := (h.connecting hs).1
    rw [Link.awaited, Bool.and_eq_true] at hawaited
    have hresolved := account_resolve (c := { c with status := .connected }) hsettled
    generalize hd : ({ c with status := .connected } : Lifecycle).resolve = d at hresolved
    have hdlink : d.link = c.link := congrArg Account.link hresolved
    have htraced : (d.links d.link).traced = true := by
      rw [hdlink, ← hd, resolve, links_modifyLink, if_pos rfl]
      split
      · exact hawaited.1
      · exact hawaited.1
    have htold : Frame ({ d with session := some d.link } : Lifecycle).account
        ((d.startSession.enqueue (.connected c.link (c.links c.link).reconnect)).account) := by
      rw [startSession, if_pos htraced]
      refine Frame.trans ?_ (frame_enqueue _)
      exact frame_tell fun a cause heq => by cases heq
    have hstarted : .sessionStart c.link ∈
        (d.startSession.enqueue (.connected c.link (c.links c.link).reconnect)).trace := by
      rw [startSession, if_pos htraced, ← hdlink]
      exact List.mem_append_left _ (List.mem_append_right _ (List.mem_singleton.mpr rfl))
    have hbase : ({ d with session := some d.link } : Lifecycle).account =
        { c.account with
          status := .connected
          session := some c.link
          promise := c.account.settles c.link (.ok ()) } := by
      change { d.account with session := some d.link } = _
      rw [hresolved, hdlink]
      rfl
    rw [hbase] at htold
    exact .connects hs
      { later := ⟨htold.later.told, htold.later.link, htold.later.waiting, htold.later.callLink,
          htold.later.nextConnect⟩
        status := htold.status
        leaving := htold.leaving
        promise := htold.promise
        view := htold.view
        started := hstarted
        endless := htold.endless }

/-! ### Rows -/

/-- A row that fails a connection that is not there yet. -/
def Row.fails : Row → Bool
  | .error code => code.isSome
  | .malformed => true
  | _ => false

theorem does_handleInitServer {p : Prop} (h : c.outline.Sound) (params : Params) (valid : Bool) :
    Relation.ReflTransGen (Does p) c.account (c.handleInitServer params valid).1.account := by
  rw [handleInitServer]
  split
  · have hseeded : Does p c.account (c.updateView (.seedServer params)).account :=
      .frame (frame_updateView (fun heq => by cases heq) fun cause heq => by cases heq)
    cases valid with
    | true => exact .tail (.single hseeded) (does_markConnected h)
    | false => exact .single hseeded
  · exact .refl

theorem does_handleRow {p : Prop} (h : c.outline.Sound) (row : Row)
    (hp : row.fails → c.status = .disconnected → p) :
    Relation.ReflTransGen (Does p) c.account (c.handleRow row).1.account := by
  unfold handleRow
  split
  · exact .refl
  · cases row with
    | voice => exact .single (.frame (frame_enqueue _))
    | cryptoInit => exact .single (.frame (.of_eq (account_modifyLink _ fun _ => rfl)))
    | initserver params valid => exact does_handleInitServer h params valid
    | error code =>
      cases code with
      | none => exact .refl
      | some code => exact .single (does_failConnection h (hp rfl) _)
    | channellistfinished => exact .single (.frame frame_welcomeFinished)
    | channellist row =>
      dsimp only
      split
      · exact .single
          (.frame (frame_updateView (fun heq => by cases heq) fun cause heq => by cases heq))
      · exact .refl
    | selfLeft reason kicked self =>
      dsimp only
      generalize hd : (c.updateView (.rosterDelete self)).emitServerEvent.emitKicked kicked = d
      have hframe : Frame c.account d.account := by
        rw [← hd]
        refine Frame.trans ?_ ((frame_enqueue _).trans (frame_emitKicked kicked))
        exact frame_updateView (fun heq => by cases heq) fun cause heq => by cases heq
      have hsound : d.outline.Sound := by
        rw [← hd, outline_emitKicked, outline_emitServerEvent]
        exact h
      refine .tail (.tail (.single (.frame hframe)) ?_) (.frame frame_emitRaw)
      rw [removedByServer, account_closeHandler]
      exact does_handleConnectionClosed hsound _
    | notification event kicked ops =>
      dsimp only
      have hviewed := frame_foldl_updateView (c := c) ops
      generalize (ops.filter VoiceClient.ofServer).foldl updateView c = d at hviewed ⊢
      have hemitted : Frame d.account (if event then d.emitServerEvent else d).account := by
        split
        · exact frame_enqueue _
        · exact .refl _
      exact .single (.frame ((hviewed.trans hemitted).trans
        ((frame_emitKicked kicked).trans frame_emitRaw)))
    | unwritten err => exact .single (does_triggerClose h _)
    | malformed => exact .refl

/-- What throws on a client that is disconnected is a malformed row. -/
theorem fails_of_thrown {row : Row} (hthrown : (c.handleRow row).2 = false)
    (hs : (c.handleRow row).1.status = .disconnected) : row.fails := by
  unfold handleRow at hthrown hs
  split at hthrown
  · cases hthrown
  · rename_i hguard
    rw [if_neg hguard] at hs
    cases row with
    | malformed => rfl
    | initserver params valid =>
      simp only [handleInitServer] at hthrown hs
      split at hthrown
      · rename_i hconnecting
        cases valid with
        | true => cases hthrown
        | false =>
          rw [if_pos hconnecting] at hs
          cases hconnecting.symm.trans hs
      · cases hthrown
    | error code =>
      cases code with
      | none => cases hthrown
      | some code => rfl
    | _ => cases hthrown

theorem does_handleRows {p : Prop} (h : c.outline.Sound) (rows : List Row)
    (hp : (∃ row ∈ rows, row.fails) → p) :
    Relation.ReflTransGen (Does p) c.account (c.handleRows rows).account := by
  induction rows generalizing c with
  | nil => exact .refl
  | cons row rows ih =>
    have hrow := does_handleRow h row fun hfails _ => hp ⟨row, List.mem_cons_self, hfails⟩
    have hsound : (c.handleRow row).1.outline.Sound := (moves_handleRow row h).1
    simp only [handleRows]
    split
    · refine hrow.trans (ih hsound fun hrest => hp ?_)
      obtain ⟨r, hr, hfails⟩ := hrest
      exact ⟨r, List.mem_cons_of_mem _ hr, hfails⟩
    · rename_i hthrown
      rw [Bool.not_eq_true] at hthrown
      exact .tail hrow (does_handleReceiveError hsound fun hs =>
        hp ⟨row, List.mem_cons_self, fails_of_thrown hthrown hs⟩)

/-! ### Calls -/

theorem account_modifyConnect_waiting (k : ConnectID) {f : Connecting → Connecting}
    {waiting : Waiting} (hf : ∀ call, (f call).waiting = waiting ∧ (f call).link = call.link) :
    (c.modifyConnect k f).account =
      { c.account with waiting := fun j => if j = k then waiting else c.account.waiting j } := by
  have hsame : ∀ j, ((c.modifyConnect k f).connects j).waiting =
      (if j = k then waiting else (c.connects j).waiting) ∧
        ((c.modifyConnect k f).connects j).link = (c.connects j).link := by
    intro j
    rw [connects_modifyConnect]
    split
    · rename_i h
      rw [h]
      exact hf _
    · exact ⟨rfl, rfl⟩
  have hwaiting : (fun j => ((c.modifyConnect k f).connects j).waiting) =
      fun j => if j = k then waiting else (c.connects j).waiting := funext fun j => (hsame j).1
  have hlink : (fun j => ((c.modifyConnect k f).connects j).link) =
      fun j => (c.connects j).link := funext fun j => (hsame j).2
  rw [account, hwaiting, hlink]
  rfl

theorem account_await (k : ConnectID) (waiting : Waiting) : (c.await k waiting).account =
    { c.account with waiting := fun j => if j = k then waiting else c.account.waiting j } :=
  account_modifyConnect_waiting k fun _ => ⟨rfl, rfl⟩

theorem account_finish (k : ConnectID) (result : Except ClientError Unit) :
    (c.finish k result).account =
      { c.account with waiting := fun j => if j = k then .done result else c.account.waiting j } :=
  account_modifyConnect_waiting k fun _ => ⟨rfl, rfl⟩

theorem account_modifyConnect_link (k : ConnectID) (waiting : Waiting) (a : LinkID)
    {f : Connecting → Connecting} (hf : ∀ call, (f call).waiting = waiting ∧ (f call).link = a) :
    (c.modifyConnect k f).account =
      { c.account with
        waiting := fun j => if j = k then waiting else c.account.waiting j
        callLink := fun j => if j = k then a else c.account.callLink j } := by
  have hwaiting : (fun j => ((c.modifyConnect k f).connects j).waiting) =
      fun j => if j = k then waiting else (c.connects j).waiting := by
    funext j
    rw [connects_modifyConnect]
    split
    · exact (hf _).1
    · rfl
  have hlink : (fun j => ((c.modifyConnect k f).connects j).link) =
      fun j => if j = k then a else (c.connects j).link := by
    funext j
    rw [connects_modifyConnect]
    split
    · exact (hf _).2
    · rfl
  rw [account, hwaiting, hlink]
  rfl

/-- `c` is a client of which call `k` is new, or has been woken. -/
structure Fresh (o : Account) (c : Lifecycle) (k : ConnectID) : Prop where
  calls : Calls o c.account k
  callLink : (c.connects k).link = 0 ∨
    (c.connects k).link = o.callLink k ∧ (o.waiting k).disconnects?.isSome
  same : c.account =
    { o with
      waiting := c.account.waiting
      callLink := c.account.callLink
      nextConnect := c.account.nextConnect }

theorem Fresh.takes {o : Account} {k : ConnectID} (h : Fresh o c k) {waiting : Waiting}
    (hw : waiting.disconnects?.isSome ∨ ∃ e, waiting = .done (.error e))
    (hc' : c'.account =
      { c.account with waiting := fun j => if j = k then waiting else c.account.waiting j }) :
    Takes o c'.account k := by
  rw [hc']
  refine ⟨⟨fun j hj => ?_, h.calls.call⟩, ?_, h.callLink, ?_⟩
  · obtain ⟨hwaiting, hlink⟩ := h.calls.others j hj
    exact ⟨(if_neg hj).trans hwaiting, hlink⟩
  · simpa using hw
  · rw [h.same]

theorem account_resetForConnect : c.resetForConnect.account =
    { c.account with
      link := c.link + 1
      promise := fun a => if a = c.link + 1 then none else c.account.promise a
      view := c.view.reset } := by
  have hclosed : c.closeHandler.abortDown.account = c.account := by
    rw [account_abortDown, account_closeHandler]
  have hpromise : (fun a => (c.resetForConnect.links a).promise) =
      fun a => if a = c.link + 1 then none else (c.closeHandler.abortDown.links a).promise := by
    funext a
    show (if a = c.link + 1 then ({} : Link) else c.closeHandler.abortDown.links a).promise = _
    split <;> rfl
  rw [account, hpromise, ← hclosed]
  rfl

theorem account_startAttempt (call : Connecting) : (c.startAttempt call).account =
    { c.account with
      trace := c.trace ++ if call.reconnect then [.retried (c.link + 1)] else []
      status := .connecting
      link := c.link + 1
      promise := fun a => if a = c.link + 1 then none else c.account.promise a
      view := c.view.reset } := by
  have hreset := account_resetForConnect (c := { c with stopped := false })
  rw [startAttempt]
  generalize ({ c with stopped := false } : Lifecycle).resetForConnect = d at hreset
  have hdlink : d.link = c.link + 1 := congrArg Account.link hreset
  have htrace : d.trace = c.trace := congrArg Account.trace hreset
  have hbegun : (({ d with status := .connecting } : Lifecycle).modifyLink d.link fun link =>
      { link with traced := true, number := call.number, reconnect := call.reconnect }).account =
        { d.account with status := .connecting } :=
    account_modifyLink (c := { d with status := .connecting }) _ fun _ => rfl
  dsimp only
  split
  · change ({ (({ d with status := .connecting } : Lifecycle).modifyLink d.link fun link =>
      { link with
        traced := true, number := call.number, reconnect := call.reconnect }).account with
      trace := d.trace ++ [.retried d.link] } : Account) = _
    rw [hbegun, hreset, hdlink, htrace]
    rfl
  · rw [hbegun, hreset, List.append_nil]
    rfl

/-- Call `k` begins an attempt. -/
theorem Fresh.begins {o : Account} {k : ConnectID} (h : Fresh o c k) (hl : c.leaving = none)
    (hc' : c'.account =
      { (c.startAttempt (c.connects k)).account with
        waiting := fun j => if j = k then .resolving else c.account.waiting j
        callLink := fun j => if j = k then c.link + 1 else c.account.callLink j }) :
    Begins o c'.account k := by
  rw [hc', account_startAttempt]
  have hsame := h.same
  have hlink : c.link = o.link := congrArg Account.link hsame
  have htrace : c.trace = o.trace := congrArg Account.trace hsame
  have hpromise : c.account.promise = o.promise := by rw [hsame]
  exact
    { calls := ⟨fun j hj => by
        obtain ⟨hwaiting, hcall⟩ := h.calls.others j hj
        exact ⟨(if_neg hj).trans hwaiting, (if_neg hj).trans hcall⟩, h.calls.call⟩
      waiting := if_pos rfl
      callLink := by
        rw [← hlink]
        exact if_pos rfl
      told := by
        rw [← htrace]
        exact List.subset_append_left _ _
      link := by rw [← hlink]
      status := rfl
      leaving := hl
      promise := fun a _ => by
        rw [← hlink, ← hpromise]
      view := ViewStore.accepting_reset _
      endless := fun a cause hin => by
        rw [← htrace]
        refine (List.mem_append.mp hin).resolve_right fun hin => ?_
        split at hin
        · cases List.mem_singleton.mp hin
        · cases hin }

theorem does_proceed {p : Prop} {o : Account} {k : ConnectID} (hsound : c.outline.Sound)
    (h : Fresh o c k) {d : Nat} (hl : ∀ l, c.leaving = some l → d < l.id) :
    Does p o (c.proceed k d).account := by
  have hstatus : c.status = o.status := congrArg Account.status h.same
  have hleaving : c.leaving = o.leaving := congrArg Account.leaving h.same
  rw [proceed]
  split
  · exact .takes k (h.takes (Or.inl rfl) (account_await k _))
  · split
    · exact .takes k (h.takes (Or.inr ⟨_, rfl⟩) (account_finish k _))
    · split
      · exact .takes k (h.takes (Or.inr ⟨_, rfl⟩) (account_finish k _))
      · split
        · exact .takes k (h.takes (Or.inr ⟨_, rfl⟩) (account_finish k _))
        · rename_i hsame hdisconnected _
          rw [not_not] at hsame hdisconnected
          have hnone := not_leaving hsound hsame hl
          have hbegun := account_startAttempt (c := c) (c.connects k)
          have hlink : (c.startAttempt (c.connects k)).link = c.link + 1 :=
            congrArg Account.link hbegun
          refine .begins k (hstatus ▸ hdisconnected) (hleaving ▸ hnone) (h.begins hnone ?_)
          refine (account_modifyConnect_link k .resolving (c.link + 1) fun _ =>
            ⟨rfl, hlink⟩).trans ?_
          rw [hbegun]

theorem does_connect {p : Prop} (h : c.outline.Sound) (number : Nat) (reconnect signal : Bool)
    (aborted : Option ClientError) :
    Does p c.account (c.connect number reconnect signal aborted).account := by
  generalize hd : (({ c with nextConnect := c.nextConnect + 1 } : Lifecycle).modifyConnect
    c.nextConnect fun _ => { number, reconnect, signal }) = d
  have hnew : d.account =
      { c.account with
        nextConnect := c.nextConnect + 1
        waiting := fun j => if j = c.nextConnect then .done (.ok ()) else c.account.waiting j
        callLink := fun j => if j = c.nextConnect then 0 else c.account.callLink j } := by
    rw [← hd]
    exact account_modifyConnect_link (c := { c with nextConnect := c.nextConnect + 1 }) _ _ _
      fun _ => ⟨rfl, rfl⟩
  have hfresh : Fresh c.account d c.nextConnect := by
    refine ⟨⟨fun j hj => ?_, Or.inl ⟨rfl, ?_⟩⟩, Or.inl ?_, ?_⟩
    · rw [hnew]
      exact ⟨if_neg hj, if_neg hj⟩
    · rw [hnew]
    · exact (congrFun (congrArg Account.callLink hnew) _).trans (if_pos rfl)
    · rw [hnew]
  have hsound : d.outline.Sound := by
    have hmoves := moves_modifyConnect (c := { c with nextConnect := c.nextConnect + 1 })
      c.nextConnect (f := fun _ => { number, reconnect, signal }) (fun _ => rfl) rfl
    rw [hd] at hmoves
    exact (hmoves h).1
  have hdleaving : d.leaving = c.leaving := congrArg Account.leaving hnew
  unfold connect
  dsimp only
  rw [hd]
  split
  · exact .takes _ (hfresh.takes (Or.inr ⟨_, rfl⟩) (account_finish _ _))
  · split
    · exact .takes _ (hfresh.takes (Or.inl rfl) (account_await _ _))
    · rename_i hleaving
      exact does_proceed hsound hfresh fun l hl => by cases hleaving.symm.trans hl

/-- What a call waited for before its attempt has come. -/
theorem fresh_of_waiting {k : ConnectID} (h : (c.connects k).waiting.disconnects?.isSome) :
    Fresh c.account c k where
  calls := ⟨fun _ _ => ⟨rfl, rfl⟩, Or.inr ⟨h, rfl⟩⟩
  callLink := Or.inr ⟨rfl, h⟩
  same := rfl

theorem does_woken {p : Prop} (h : c.outline.Sound) (k : ConnectID) :
    Does p c.account (c.woken k).account := by
  rw [woken]
  cases hw : (c.connects k).waiting with
  | leaving d id =>
    dsimp only
    split
    · exact .frame (.refl _)
    · rename_i hgone
      refine does_proceed h (fresh_of_waiting (by rw [hw]; rfl)) fun l hl => ?_
      refine (h.overtaken k d l (by simp [outline, hw, Waiting.disconnects?]) hl).resolve_right ?_
      intro heq
      cases hw.symm.trans heq
      exact hgone (by rw [hl, Option.map_some])
  | delivered d n =>
    dsimp only
    split
    · exact .frame (.refl _)
    · refine does_proceed h (fresh_of_waiting (by rw [hw]; rfl)) fun l hl => ?_
      refine (h.overtaken k d l (by simp [outline, hw, Waiting.disconnects?]) hl).resolve_right ?_
      intro heq
      cases hw.symm.trans heq
  | settling =>
    dsimp only
    split
    · exact .frame (.refl _)
    · rename_i result hresult
      exact .returns k ⟨hw, result, hresult, account_finish k result⟩
  | resolving => exact .frame (.refl _)
  | opening => exact .frame (.refl _)
  | done result => exact .frame (.refl _)

/-- A call goes on, once a failure has had its effect or without one. -/
theorem goes_await {o : Account} {k : ConnectID}
    (hw : o.waiting k = .resolving ∨ o.waiting k = .opening)
    (hc : c.account.waiting = o.waiting) {waiting : Waiting}
    (hnext : waiting = .opening ∨ waiting = .settling) :
    Goes c.account (c.await k waiting).account k :=
  ⟨by rwa [hc], waiting, hnext, account_await k waiting⟩

theorem waiting_failConnection (error : ClientError) :
    (c.failConnection error).account.waiting = c.account.waiting := by
  have hfails : c.outline.fails.waiting = c.outline.waiting := by
    rw [Outline.fails]
    split
    · rfl
    · split
      · exact Outline.waiting_rejects _
      · exact Outline.waiting_rejects _
  exact (congrArg Outline.waiting (outline_failConnection (c := c) error)).trans hfails

/-- A step that fails the connection, if it is not there. -/
def failing (c : Lifecycle) : Event → Bool
  | .resolved k (.error _) => (c.connects k).waiting = .resolving
  | .opened k (.error _) => (c.connects k).waiting = .opening
  | .opened k (.ok _) => (c.connects k).waiting = .opening ∧ (c.links (c.connects k).link).closed
  | .aborts k _ => (c.connects k).listening
  | .datagram rows => (c.links c.link).isOpen && rows.any Row.fails
  | _ => false

theorem does_resolved {p : Prop} (h : c.outline.Sound) (k : ConnectID)
    (result : Except ClientError Unit) (hp : c.failing (.resolved k result) = true → p) :
    Relation.ReflTransGen (Does p) c.account (c.resolved k result).account := by
  unfold resolved
  cases hw : (c.connects k).waiting with
  | resolving =>
    cases result with
    | ok =>
      dsimp only
      split
      · exact .single (.goes k (goes_await (Or.inl hw) rfl (Or.inr rfl)))
      · exact .single (.goes k (goes_await (Or.inl hw) rfl (Or.inl rfl)))
    | error e =>
      refine .tail (.single (does_failConnection h (fun _ => hp (decide_eq_true hw)) e)) (.goes k ?_)
      exact goes_await (Or.inl hw) (waiting_failConnection e) (Or.inr rfl)
  | _ => exact .refl

theorem does_opened {p : Prop} (h : c.outline.Sound) (k : ConnectID)
    (result : Except ClientError Unit) (hp : c.failing (.opened k result) = true → p) :
    Relation.ReflTransGen (Does p) c.account (c.opened k result).account := by
  unfold opened
  cases hw : (c.connects k).waiting with
  | opening =>
    cases result with
    | ok =>
      dsimp only
      split
      · rename_i hclosed
        refine .tail (.single (does_failConnection h (fun _ => hp (decide_eq_true ⟨hw, hclosed⟩))
          (.made .notConnected c.clock))) (.goes k ?_)
        exact goes_await (Or.inr hw) (waiting_failConnection _) (Or.inr rfl)
      · have hopened : (c.modifyLink (c.connects k).link fun link =>
            { link with opened := true }).account = c.account := account_modifyLink _ fun _ => rfl
        rw [← hopened]
        exact .single (.goes k (goes_await (o := c.account) (Or.inr hw) (by rw [hopened])
          (Or.inr rfl)))
    | error e =>
      refine .tail (.single (does_failConnection h (fun _ => hp (decide_eq_true hw)) e)) (.goes k ?_)
      exact goes_await (Or.inr hw) (waiting_failConnection e) (Or.inr rfl)
  | _ => exact .refl

theorem does_aborts {p : Prop} (h : c.outline.Sound) (k : ConnectID) (reason : ClientError)
    (hp : c.failing (.aborts k reason) = true → p) :
    Does p c.account (c.aborts k reason).account := by
  have htaken : (c.connects k).waiting.disconnects?.isSome →
      Does p c.account (if (c.connects k).signal then c.finish k (.error reason) else c).account := by
    intro hw
    split
    · exact .takes k ((fresh_of_waiting hw).takes (Or.inr ⟨_, rfl⟩) (account_finish k _))
    · exact .frame (.refl _)
  rw [aborts]
  split
  · rename_i hw
    exact htaken (by rw [hw]; rfl)
  · rename_i hw
    exact htaken (by rw [hw]; rfl)
  · split
    · rename_i hlistening
      have hdeaf : (c.modifyConnect k fun call => { call with listening := false }).account =
          c.account := account_modifyConnect k fun _ => ⟨rfl, rfl⟩
      have hsame : (c.modifyConnect k fun call => { call with listening := false }).outline =
          c.outline := outline_modifyConnect k fun _ => rfl
      rw [← hdeaf]
      exact does_failConnection (by rwa [hsame]) (fun _ => hp hlistening) reason
    · exact .frame (.refl _)

/-! ### Leaving -/

theorem account_rejectAfter_of_not (h : (c.links c.link).awaited = false) :
    c.rejectAfter.account = c.account := by
  rw [rejectAfter]
  split
  · rfl
  · rename_i hsettled
    have huntraced : (c.links c.link).traced = false := by
      rw [Link.awaited, Bool.eq_false_iff.mpr hsettled, Bool.not_false, Bool.and_true] at h
      exact h
    simp only [failAttempt, huntraced, Bool.false_eq_true, if_false]
    exact account_modifyLink _ fun _ => rfl

/-- An attempt that is under way fails, and nothing else happens than that the client is
disconnected. -/
theorem frame_abandon (h : c.outline.Sound) (hs : c.status ≠ .disconnected) :
    Frame { c.account with status := .disconnected } c.abandon.account ∧
      (c.status = .connecting → .attemptFailed c.link ∈ c.abandon.trace) := by
  have hdown : ({ c with status := .disconnected } : Lifecycle).abortDown.account =
      { c.account with status := .disconnected } := account_abortDown
  have hawaited : (({ c with status := .disconnected } : Lifecycle).abortDown.links c.link).awaited =
      c.outline.awaited :=
    congrArg Outline.awaited
      (outline_abortDown (c := ({ c with status := .disconnected } : Lifecycle)))
  rw [abandon]
  generalize ({ c with status := .disconnected } : Lifecycle).abortDown = d at hdown hawaited ⊢
  have hlink : d.link = c.link := congrArg Account.link hdown
  have htrace : d.trace = c.trace := congrArg Account.trace hdown
  cases hstatus : c.status with
  | disconnected => exact absurd hstatus hs
  | connecting =>
    have hfailed := account_rejectAfter (c := d)
      (by rw [hlink, hawaited]; exact (h.connecting hstatus).1)
    have hmem : .attemptFailed c.link ∈ d.rejectAfter.trace := by
      have htold : d.rejectAfter.trace = d.trace ++ [.attemptFailed d.link] :=
        congrArg Account.trace hfailed
      rw [htold, hlink]
      exact List.mem_append_right _ (List.mem_singleton.mpr rfl)
    refine ⟨?_, fun _ => hmem⟩
    rw [hfailed, hdown, hlink, htrace]
    exact frame_tell (c := { c with status := .disconnected }) fun a cause heq => by cases heq
  | connected =>
    refine ⟨?_, fun hconnecting => by cases hconnecting⟩
    have hkept := account_rejectAfter_of_not (c := d)
      (by rw [hlink, hawaited]; exact (h.connected hstatus).1)
    rw [hkept, hdown]
    exact .refl _

/-- What was under way has ended, and the client goes on to leave. -/
theorem quits_abandon (h : c.outline.Sound) (hs : c.status ≠ .disconnected) {o : Account}
    {l : Leaving} (hl : l.link = c.link ∧ l.goodbye = true)
    (ho : Frame { c.abandon.account with leaving := some l } o) : Quits c.account o := by
  obtain ⟨hframe, hfailed⟩ := frame_abandon h hs
  exact
    { later := ⟨fun _ hin => ho.later.told (hframe.later.told hin),
        ho.later.link.trans hframe.later.link, ho.later.waiting.trans hframe.later.waiting,
        ho.later.callLink.trans hframe.later.callLink,
        ho.later.nextConnect.trans hframe.later.nextConnect⟩
      status := ho.status.trans hframe.status
      leaving := ⟨l, ho.leaving, hl⟩
      promise := fun a ha => (ho.promise a ha).trans (hframe.promise a ha)
      view := hframe.view.trans ho.view
      failed := fun hconnecting => ho.later.told (hfailed hconnecting)
      endless := fun a cause hin => hframe.endless a cause (ho.endless a cause hin) }

theorem quits_sayGoodbye (h : c.outline.Sound) (hs : c.status ≠ .disconnected) (aborted : Bool) :
    Quits c.account (c.abandon.sayGoodbye aborted).account := by
  refine quits_abandon (l := ⟨c.abandon.disconnects, c.abandon.link, true, 0⟩) h hs
    ⟨link_abandon, rfl⟩ ?_
  rw [sayGoodbye]
  split
  · refine frame_tell (c := { c.abandon with
      leaving := some ⟨c.abandon.disconnects, c.abandon.link, true, 0⟩ }) ?_
    intro a cause heq
    cases heq
  · exact .refl _

/-- Of whatever the client was leaving. -/
theorem leaves_leave (id : Nat) {a : LinkID} (hsession : c.session = none ∨ c.session = some a)
    (leaving : Option Leaving) :
    Leaves { c.account with leaving } (c.leave id a).account a := by
  have hended := account_endSession (c := c.closeHandler) .disconnect
  rw [account_closeHandler] at hended
  have hmem := disconnected_mem (c := c.closeHandler.endSession .disconnect) a none false
  have hframe := frame_announceDisconnected (c := c.closeHandler.endSession .disconnect) a none false
  rw [hended] at hframe
  exact
    { later := ⟨fun _ hin => hframe.later.told (List.mem_append_left _ hin), hframe.later.link,
        hframe.later.waiting, hframe.later.callLink, hframe.later.nextConnect⟩
      status := hframe.status
      leaving := ⟨_, rfl, rfl, rfl⟩
      promise := hframe.promise
      view := hframe.view
      disconnected := hmem
      ends := fun b cause hin => by
        rcases List.mem_append.mp (hframe.endless b cause hin) with hin | hin
        · exact Or.inl hin
        · right
          have hsame : c.closeHandler.session = c.session := rfl
          rw [hsame] at hin
          rcases hsession with hnone | hsome
          · rw [hnone] at hin
            cases hin
          · rw [hsome, Option.toList_some, List.map_cons, List.map_nil, List.mem_singleton,
              Shown.sessionEnd.injEq] at hin
            exact hin }

/-- A client that connects, and holds no session yet, leaves at once. -/
theorem does_leave {p : Prop} (hp : ¬p) (h : c.outline.Sound) (hs : c.status = .connecting)
    (id : Nat) :
    Relation.ReflTransGen (Does p) c.account (c.abandon.leave id c.link).account := by
  have hgoing : c.status ≠ .disconnected := by simp [hs]
  obtain ⟨hframe, -⟩ := frame_abandon h hgoing
  have hsession : c.abandon.session = none := hframe.session.trans (h.connecting hs).2.1
  have hquits := quits_abandon (l := ⟨id, c.link, true, 0⟩) h hgoing ⟨rfl, rfl⟩ (.refl _)
  have hleaves := leaves_leave (c := c.abandon) id (a := c.link) (Or.inl hsession)
    (some ⟨id, c.link, true, 0⟩)
  exact .tail (.single (.quits hp hgoing hquits))
    (.leaves ⟨id, c.link, true, 0⟩ hquits.status rfl rfl hleaves)

theorem does_disconnect {p : Prop} (hp : ¬p) (h : c.outline.Sound) (aborted : Bool) :
    Relation.ReflTransGen (Does p) c.account (c.disconnect aborted).account := by
  have hsound : ({ c with
      stopped := true
      disconnects := c.disconnects + 1 } : Lifecycle).outline.Sound :=
    (Outline.moves_disconnects c.outline h).1
  rw [disconnect]
  dsimp only
  split
  · exact .single (.frame (.refl c.account))
  · rename_i hgoing
    have hs : c.status ≠ .disconnected := fun hs => hgoing (Or.inr hs)
    split
    · exact .single (.quits hp hs (quits_sayGoodbye hsound hs aborted))
    · rename_i hholds
      have hconnecting : c.status = .connecting := by
        cases hstatus : c.status with
        | connecting => rfl
        | connected => exact absurd (Or.inl hstatus) hholds
        | disconnected => exact absurd hstatus hs
      exact does_leave hp hsound hconnecting _

theorem does_goodbyeEnded {p : Prop} (h : c.outline.Sound) :
    Does p c.account c.goodbyeEnded.account := by
  rw [goodbyeEnded]
  split
  · rename_i id a n hl
    obtain ⟨hs, hlink, -⟩ := h.leaving _ hl
    have hsession : c.session = none ∨ c.session = some a := by
      have hsession := h.session
      have ha : a = c.outline.link := hlink
      rw [← ha] at hsession
      change c.session = _ at hsession
      split at hsession
      · exact Or.inr hsession
      · exact Or.inl hsession
    exact .leaves ⟨id, a, true, n⟩ hs hl rfl (leaves_leave id hsession c.leaving)
  · exact .frame (.refl _)

theorem does_left {p : Prop} (h : c.outline.Sound) : Does p c.account c.left.account := by
  rw [left]
  split
  · rename_i id a n hl
    split
    · exact .frame (.refl _)
    · obtain ⟨hs, -, -⟩ := h.leaving _ hl
      refine .left ⟨id, a, false, n⟩ hs hl rfl ⟨c.clock, ?_⟩
      have hpromise : (fun b => ((({ c with leaving := none } : Lifecycle).modifyLink a fun link =>
          { link with
            promise := link.promise.or (some (.error (.made .notConnected c.clock))) }).links
              b).promise) =
          fun b => if b = a then
            (c.links a).promise.or (some (.error (.made .notConnected c.clock)))
          else (c.links b).promise := by
        funext b
        rw [links_modifyLink]
        split <;> rfl
      rw [account, hpromise]
      rfl
  · exact .frame (.refl _)

/-! ### Steps -/

theorem does_slept {p : Prop} (h : c.outline.Sound) : Does p c.account c.slept.account := by
  unfold slept
  split
  · rename_i attempt _
    split
    · exact .frame (.refl c.account)
    · exact does_connect (c := { c with loopAttempt := attempt }) h attempt true true none
  · exact .frame (.refl _)

theorem frame_resumed : Frame c.account c.resumed.account := by
  unfold resumed
  split
  · split
    · split
      · exact .refl c.account
      · exact frame_round _ _
    · split
      · exact .refl c.account
      · exact frame_round _ _
    · exact .refl _
  · exact .refl _

theorem frame_deliver : Frame c.account c.deliver.account := by
  rw [deliver]
  split
  · exact .refl _
  · rename_i delivery queue _
    exact frame_tell (c := { c with queue }) fun a cause heq => by cases heq

theorem frame_issue : Frame c.account c.issue.account := by
  rw [issue]
  split
  · refine frame_tell (c := { c.modifyLine c.nextLine fun _ => { link := c.link } with
      nextLine := c.nextLine + 1 }) ?_
    intro a cause heq
    cases heq
  · exact .refl _

theorem frame_handOn (n : LineID) : Frame c.account (c.handOn n).account := by
  rw [handOn]
  split
  · exact frame_tell fun a cause heq => by cases heq
  · exact .refl _

theorem frame_read (op : ViewStore.Op ClientError) :
    Frame c.account (if ofReader op then c.updateView op else c).account := by
  split
  · rename_i hop
    apply frame_updateView
    · rintro rfl
      cases hop
    · rintro cause rfl
      cases hop
  · exact .refl _

/-- **What a step does is one such thing after the other**, and what is overtaken is a failing
one. -/
theorem does_step (h : c.outline.Sound) (e : Event) :
    Relation.ReflTransGen (Does (c.failing e = true)) c.account (c.step e).account := by
  change Relation.ReflTransGen (Does (c.failing e = true)) c.account (c.happen e).account
  cases e with
  | connect signal aborted => exact .single (does_connect h 1 false signal aborted)
  | woken k => exact .single (does_woken h k)
  | resolved k result => exact does_resolved h k result id
  | opened k result => exact does_opened h k result id
  | aborts k reason => exact .single (does_aborts h k reason id)
  | disconnect aborted => exact does_disconnect (fun hnot => by cases hnot) h aborted
  | goodbyeEnded => exact .single (does_goodbyeEnded h)
  | left => exact .single (does_left h)
  | closes err => exact .single (does_triggerClose h err)
  | datagram rows =>
    simp only [happen, receive]
    split
    · rename_i hopen
      refine does_handleRows h rows fun hfails => ?_
      rw [failing, hopen, Bool.true_and, List.any_eq_true]
      exact hfails
    · exact .refl
  | slept => exact .single (does_slept h)
  | resumed => exact .single (.frame frame_resumed)
  | deliver => exact .single (.frame frame_deliver)
  | delivered =>
    simp only [happen, Lifecycle.delivered]
    split
    · exact .refl
    · exact .single (.frame (.refl c.account))
  | issue => exact .single (.frame frame_issue)
  | cut n => exact .single (.frame (.refl c.account))
  | returns n => exact .single (.frame (.refl c.account))
  | handOn n => exact .single (.frame (frame_handOn n))
  | read op => exact .single (.frame (frame_read op))
  | listen raw => exact .single (.frame (.refl c.account))

end Lifecycle

end Teamspeak.Client
