import Teamspeak.Client.Lifecycle
import Teamspeak.Client.Lifecycle.Life

/-!
# The outline of a client

What of a client says where it is in the life of its connection.  `outline_step` tells what
each function of the client does to it, and `Sound` is what holds of it between steps; a sound
client lives as `Life.Next` allows.
-/

namespace Teamspeak.Client

/-- The attempt is under way. -/
def Link.awaited (link : Link) : Bool := link.traced && !link.settled

/-- What is told of an attempt. -/
def Shown.notice? : Shown → Option Notice
  | .attemptFailed a => some (.failed a)
  | .sessionStart a => some (.started a)
  | .sessionEnd a _ => some (.ended a)
  | .queued (.connected a _) => some (.connected a)
  | .queued (.disconnected a _ _) => some (.disconnected a)
  | _ => none

/-- How many disconnects there were when a call that has not begun its attempt was made. -/
def Waiting.disconnects? : Waiting → Option Nat
  | .leaving disconnects _ | .delivered disconnects _ => some disconnects
  | _ => none

/-- `awaited`, `traced` and `crypto` are of the current link. -/
structure Outline where
  status : ClientStatus
  link : LinkID
  awaited : Bool
  traced : Bool
  crypto : Bool
  down : LinkID → Bool
  session : Option LinkID
  leaving : Option Leaving
  disconnects : Nat
  waiting : ConnectID → Waiting
  notices : List Notice

namespace Outline

/-- A goodbye is to be answered. -/
def goodbye (o : Outline) : Bool := o.leaving.any Leaving.goodbye

def stage (o : Outline) : Stage :=
  match o.status with
  | .connecting => .connecting
  | .connected => .connected
  | .disconnected => if o.goodbye then .leaving o.session.isSome else .over

theorem stage_eq_connecting {o : Outline} : o.stage = .connecting ↔ o.status = .connecting := by
  rw [stage]
  cases o.status with
  | connecting => simp
  | connected => simp
  | disconnected => cases o.goodbye <;> simp

theorem stage_eq_over {o : Outline} :
    o.stage = .over ↔ o.status = .disconnected ∧ o.goodbye = false := by
  rw [stage]
  cases o.status with
  | connecting => simp
  | connected => simp
  | disconnected => cases o.goodbye <;> simp

theorem isUp_stage {o : Outline} : o.stage.isUp = true ↔ o.status ≠ .disconnected := by
  rw [stage]
  cases o.status with
  | connecting => simp [Stage.isUp]
  | connected => simp [Stage.isUp]
  | disconnected => cases o.goodbye <;> simp [Stage.isUp]

def life (o : Outline) : Life := ⟨o.stage, o.link, o.notices⟩

/-- What holds of the links. -/
structure Wired (o : Outline) : Prop where
  keys : o.status = .connected → o.crypto = true
  up : o.status ≠ .disconnected → o.down o.link = false
  older : ∀ a, a < o.link → o.down a = true
  begun : 0 < o.link → o.traced = true

/-- What holds of a client between its steps. -/
structure Sound (o : Outline) : Prop where
  awaited : o.awaited = decide (o.status = .connecting)
  session : o.session = if o.stage.inSession then some o.link else none
  leaving : ∀ l, o.leaving = some l →
    o.status = .disconnected ∧ l.link = o.link ∧ l.id ≤ o.disconnects
  waiting : ∀ k d, (o.waiting k).disconnects? = some d → d ≤ o.disconnects
  /-- A call made before a client leaves was overtaken; one made since waits for it. -/
  overtaken : ∀ k d l, (o.waiting k).disconnects? = some d → o.leaving = some l →
    d < l.id ∨ o.waiting k = .leaving d l.id
  wired : o.Wired

/-! ### What functions of the client do to it -/

def tell (o : Outline) (notice : Notice) : Outline := { o with notices := o.notices ++ [notice] }

/-- `#announceDisconnected`. -/
def announces (o : Outline) : Outline := o.tell (.disconnected o.link)

/-- `#down` aborts. -/
def downs (o : Outline) : Outline :=
  { o with down := fun a => if a = o.link then true else o.down a }

/-- `attempt.reject` and `attempt.rejectAfter`. -/
def rejects (o : Outline) : Outline :=
  if o.awaited then { o with awaited := false }.tell (.failed o.link) else o

/-- `#endSession`. -/
def endsSession (o : Outline) : Outline :=
  match o.session with
  | none => o
  | some a => { o with session := none }.tell (.ended a)

/-- `#failConnection`. -/
def fails (o : Outline) : Outline :=
  if o.status = .connected then o
  else if o.status = .disconnected then o.rejects
  else { o.rejects with status := .disconnected }.announces

/-- `#handleConnectionClosed`. -/
def closes (o : Outline) : Outline :=
  if o.status = .disconnected then o
  else if o.status ≠ .connected then o.downs.fails
  else { o.downs with status := .disconnected }.endsSession.announces

/-- `#markConnected`. -/
def connects (o : Outline) : Outline :=
  if o.status = .connecting then
    ({ o with status := .connected, awaited := false, session := some o.link }.tell
      (.started o.link)).tell (.connected o.link)
  else o

/-- `#connect`, where the attempt begins. -/
def begins (o : Outline) : Outline :=
  { o with
    status := .connecting
    link := o.link + 1
    awaited := true
    traced := true
    crypto := false
    down := fun a => if a = o.link + 1 then false else o.downs.down a }

def awaits (o : Outline) (k : ConnectID) (waiting : Waiting) : Outline :=
  { o with waiting := fun j => if j = k then waiting else o.waiting j }

/-- `#leave` after the goodbye. -/
def leave (o : Outline) (leaving : Leaving) : Outline :=
  { o.endsSession.announces with leaving := some leaving }

/-- What `disconnect()` does at once. -/
def abandons (o : Outline) : Outline := { o with status := .disconnected }.downs.rejects

def saysGoodbye (o : Outline) : Outline :=
  { o with leaving := some ⟨o.disconnects, o.link, true, 0⟩ }

@[simp] theorem status_rejects (o : Outline) : o.rejects.status = o.status := by
  rw [rejects]
  split <;> rfl

@[simp] theorem link_rejects (o : Outline) : o.rejects.link = o.link := by
  rw [rejects]
  split <;> rfl

@[simp] theorem waiting_rejects (o : Outline) : o.rejects.waiting = o.waiting := by
  rw [rejects]
  split <;> rfl

@[simp] theorem link_abandons (o : Outline) : o.abandons.link = o.link := by
  rw [abandons, link_rejects]
  rfl

@[simp] theorem crypto_abandons (o : Outline) : o.abandons.crypto = o.crypto := by
  rw [abandons, rejects]
  split <;> rfl

@[simp] theorem disconnects_abandons (o : Outline) : o.abandons.disconnects = o.disconnects := by
  rw [abandons, rejects]
  split <;> rfl

@[simp] theorem link_endsSession (o : Outline) : o.endsSession.link = o.link := by
  rw [endsSession]
  split <;> rfl

end Outline

namespace Lifecycle

def notices (c : Lifecycle) : List Notice := c.trace.filterMap Shown.notice?

def outline (c : Lifecycle) : Outline where
  status := c.status
  link := c.link
  awaited := (c.links c.link).awaited
  traced := (c.links c.link).traced
  crypto := (c.links c.link).cryptoInitComplete
  down a := (c.links a).down
  session := c.session
  leaving := c.leaving
  disconnects := c.disconnects
  waiting k := (c.connects k).waiting
  notices := c.notices

variable {c : Lifecycle}

/-! ### What leaves the outline as it is -/

theorem notices_tell (shown : Shown) :
    (c.tell shown).notices = c.notices ++ (shown.notice?).toList := by
  rw [notices, tell, List.filterMap_append]
  cases h : shown.notice? <;> simp [notices, h]

theorem outline_tell (shown : Shown) :
    (c.tell shown).outline = { c.outline with notices := c.notices ++ (shown.notice?).toList } := by
  rw [← notices_tell]
  rfl

/-- What is no mark is not in the outline. -/
theorem outline_tell_none {shown : Shown} (h : shown.notice? = none) :
    (c.tell shown).outline = c.outline := by
  rw [outline_tell, h, Option.toList_none, List.append_nil]
  rfl

theorem outline_enqueue (delivery : Queued) :
    (c.enqueue delivery).outline =
      { c.outline with notices := c.notices ++ ((Shown.queued delivery).notice?).toList } :=
  outline_tell (c := { c with queue := c.queue ++ [delivery] }) (.queued delivery)

theorem outline_enqueue_none {delivery : Queued} (h : (Shown.queued delivery).notice? = none) :
    (c.enqueue delivery).outline = c.outline :=
  outline_tell_none (c := { c with queue := c.queue ++ [delivery] }) h

@[simp] theorem outline_updateView (op : ViewStore.Op ClientError) :
    (c.updateView op).outline = c.outline := rfl

theorem outline_modifyLink_self (f : Link → Link) :
    (c.modifyLink c.link f).outline =
      { c.outline with
        awaited := (f (c.links c.link)).awaited
        traced := (f (c.links c.link)).traced
        crypto := (f (c.links c.link)).cryptoInitComplete
        down := fun a => if a = c.link then (f (c.links c.link)).down else (c.links a).down } := by
  have hdown : (fun a => ((c.modifyLink c.link f).links a).down) =
      fun a => if a = c.link then (f (c.links c.link)).down else (c.links a).down := by
    funext a
    rw [links_modifyLink]
    split <;> rfl
  have hlink : (c.modifyLink c.link f).links c.link = f (c.links c.link) := by
    rw [links_modifyLink, if_pos rfl]
  rw [outline, hdown]
  show Outline.mk c.status c.link ((c.modifyLink c.link f).links c.link).awaited
    ((c.modifyLink c.link f).links c.link).traced
    ((c.modifyLink c.link f).links c.link).cryptoInitComplete _ _ _ _ _ _ = _
  rw [hlink]
  rfl

/-- An attempt is settled, or begins. -/
theorem outline_settle {f : Link → Link}
    (hf : ∀ link, (f link).cryptoInitComplete = link.cryptoInitComplete ∧
      (f link).down = link.down) :
    (c.modifyLink c.link f).outline =
      { c.outline with
        awaited := (f (c.links c.link)).awaited
        traced := (f (c.links c.link)).traced } := by
  obtain ⟨hcrypto, hdown⟩ := hf (c.links c.link)
  have hsame : (fun a => if a = c.link then (f (c.links c.link)).down else (c.links a).down) =
      fun a => (c.links a).down := by
    funext a
    split
    · rename_i h
      rw [hdown, h]
    · rfl
  rw [outline_modifyLink_self, hcrypto, hsame]
  rfl

/-- Nothing of a link changes that is in the outline. -/
theorem outline_modifyLink (a : LinkID) {f : Link → Link}
    (hf : ∀ link, (f link).awaited = link.awaited ∧ (f link).traced = link.traced ∧
      (f link).cryptoInitComplete = link.cryptoInitComplete ∧ (f link).down = link.down) :
    (c.modifyLink a f).outline = c.outline := by
  have hlink : ∀ b, ((c.modifyLink a f).links b).awaited = (c.links b).awaited ∧
      ((c.modifyLink a f).links b).traced = (c.links b).traced ∧
      ((c.modifyLink a f).links b).cryptoInitComplete = (c.links b).cryptoInitComplete ∧
        ((c.modifyLink a f).links b).down = (c.links b).down := by
    intro b
    rw [links_modifyLink]
    split
    · rename_i h
      subst h
      exact hf _
    · exact ⟨rfl, rfl, rfl, rfl⟩
  obtain ⟨hawaited, htraced, hcrypto, -⟩ := hlink c.link
  have hdown : (fun b => ((c.modifyLink a f).links b).down) = fun b => (c.links b).down :=
    funext fun b => (hlink b).2.2.2
  rw [outline, outline, hdown]
  show Outline.mk c.status c.link ((c.modifyLink a f).links c.link).awaited
    ((c.modifyLink a f).links c.link).traced
    ((c.modifyLink a f).links c.link).cryptoInitComplete _ _ _ _ _ _ = _
  rw [hawaited, htraced, hcrypto]
  rfl

@[simp] theorem outline_closeHandler : c.closeHandler.outline = c.outline :=
  outline_modifyLink _ fun _ => ⟨rfl, rfl, rfl, rfl⟩

@[simp] theorem outline_abortDown : c.abortDown.outline = c.outline.downs :=
  outline_modifyLink_self _

@[simp] theorem outline_modifyLine (n : LineID) (f : InFlight → InFlight) :
    (c.modifyLine n f).outline = c.outline := rfl

/-- A call waits as before. -/
theorem outline_modifyConnect (k : ConnectID) {f : Connecting → Connecting}
    (hf : ∀ call, (f call).waiting = call.waiting) : (c.modifyConnect k f).outline = c.outline := by
  have : (fun j => ((c.modifyConnect k f).connects j).waiting) =
      fun j => (c.connects j).waiting := by
    funext j
    rw [connects_modifyConnect]
    split
    · rename_i h
      rw [hf, h]
    · rfl
  rw [outline, outline, this]
  rfl

/-- A call comes to wait for something. -/
theorem outline_modifyConnect_waiting (k : ConnectID) {f : Connecting → Connecting}
    {waiting : Waiting} (hf : ∀ call, (f call).waiting = waiting) :
    (c.modifyConnect k f).outline = c.outline.awaits k waiting := by
  have : (fun j => ((c.modifyConnect k f).connects j).waiting) =
      fun j => if j = k then waiting else (c.connects j).waiting := by
    funext j
    rw [connects_modifyConnect]
    split
    · exact hf _
    · rfl
  rw [outline, this]
  rfl

@[simp] theorem outline_finish (k : ConnectID) (result : Except ClientError Unit) :
    (c.finish k result).outline = c.outline.awaits k (.done result) :=
  outline_modifyConnect_waiting k fun _ => rfl

@[simp] theorem outline_await (k : ConnectID) (waiting : Waiting) :
    (c.await k waiting).outline = c.outline.awaits k waiting :=
  outline_modifyConnect_waiting k fun _ => rfl

@[simp] theorem outline_endLoop : c.endLoop.outline = c.outline := rfl

@[simp] theorem outline_willReconnect (err : ClientError) (attempt : Nat) :
    (c.willReconnect err attempt).1.outline = c.outline := by
  rw [willReconnect]
  split
  · rfl
  · split
    · rfl
    · split
      · rfl
      · dsimp only
        split
        · rfl
        · exact outline_tell_none rfl

@[simp] theorem outline_round (err : ClientError) (attempt : Nat) :
    (c.round err attempt).outline = c.outline := by
  rw [round]
  split
  · rfl
  · split
    · rfl
    · split
      · rfl
      · dsimp only
        split
        · exact outline_willReconnect err attempt
        · exact outline_willReconnect err attempt

@[simp] theorem outline_scheduleReconnect (err : ClientError) :
    (c.scheduleReconnect err).outline = c.outline := by
  rw [scheduleReconnect]
  split
  · rfl
  · exact outline_round err 1

/-! ### The ends of attempts and sessions -/

/-- An attempt that is not settled fails. -/
theorem outline_failAttempt (h : (c.links c.link).settled = false) :
    c.failAttempt.outline = c.outline.rejects := by
  have hold : c.outline.awaited = (c.links c.link).traced := by
    show (c.links c.link).awaited = _
    rw [Link.awaited, h, Bool.not_false, Bool.and_true]
  rw [failAttempt, Outline.rejects, hold]
  by_cases htraced : (c.links c.link).traced = true
  · simp only [htraced, if_true]
    refine (outline_settle (c := c.tell (.attemptFailed c.link))
      (f := fun link => { link with settled := true }) fun _ => ⟨rfl, rfl⟩).trans ?_
    rw [outline_tell]
    simp [Link.awaited, Outline.tell, Shown.notice?, outline, tell]
  · rw [Bool.not_eq_true] at htraced
    simp only [htraced, Bool.false_eq_true, if_false]
    refine (outline_settle (f := fun link => { link with settled := true })
      fun _ => ⟨rfl, rfl⟩).trans ?_
    simp [Link.awaited, htraced, outline]

@[simp] theorem outline_rejectAfter : c.rejectAfter.outline = c.outline.rejects := by
  rw [rejectAfter]
  by_cases h : (c.links c.link).settled = true
  · rw [if_pos h, Outline.rejects, if_neg]
    show ¬(c.links c.link).awaited = true
    simp [Link.awaited, h]
  · rw [if_neg h]
    exact outline_failAttempt (Bool.eq_false_iff.mpr h)

@[simp] theorem outline_reject (error : ClientError) :
    (c.reject error).outline = c.outline.rejects := by
  rw [← outline_rejectAfter, reject, rejectAfter]
  split
  · rfl
  · exact outline_modifyLink _ fun _ => ⟨rfl, rfl, rfl, rfl⟩

@[simp] theorem outline_endSession (cause : Cause ClientError) :
    (c.endSession cause).outline = c.outline.endsSession := by
  have hview : (c.updateView (.end_ cause)).session = c.session := rfl
  have hold : c.outline.session = c.session := rfl
  simp only [endSession, Outline.endsSession, hview, hold]
  cases c.session with
  | none => rfl
  | some a =>
    exact outline_tell (c := { c.updateView (.end_ cause) with session := none }) (.sessionEnd a cause)

/-- The end of the link is announced, the policy having been asked or not. -/
theorem outline_announceDisconnected {c' : Lifecycle} (h : c'.outline = c.outline)
    (cause : Option ClientError) (willReconnect : Bool) :
    (c'.announceDisconnected c.link cause willReconnect).outline = c.outline.announces := by
  rw [← h, announceDisconnected, show c.link = c'.outline.link from congrArg Outline.link h.symm]
  exact outline_enqueue (.disconnected c'.link cause willReconnect)

/-- Whether the policy is asked makes no difference. -/
theorem outline_ite_willReconnect (p : Prop) [Decidable p] (err : ClientError) (attempt : Nat) :
    (if p then c.willReconnect err attempt else (c, false)).1.outline = c.outline := by
  split
  · exact outline_willReconnect err attempt
  · rfl

@[simp] theorem outline_failConnection (error : ClientError) :
    (c.failConnection error).outline = c.outline.fails := by
  have hold : c.outline.status = c.status := rfl
  have hstatus : ((c.reject error).updateView (.end_ error.cause)).status = c.status := by
    have h := congrArg Outline.status (c.outline_reject error)
    rwa [Outline.status_rejects] at h
  simp only [failConnection, Outline.fails, hold, hstatus]
  split
  · rfl
  · split
    · exact outline_reject error
    · rw [outline_announceDisconnected (outline_ite_willReconnect _ _ _), outline_closeHandler]
      show Outline.announces { (c.reject error).outline with status := .disconnected } = _
      rw [outline_reject]

@[simp] theorem outline_handleConnectionClosed (err : Option ClientError) :
    (c.handleConnectionClosed err).outline = c.outline.closes := by
  have hold : c.outline.status = c.status := rfl
  have hstatus : c.abortDown.status = c.status := rfl
  simp only [handleConnectionClosed, Outline.closes, hold, hstatus]
  split
  · rfl
  · split
    · rw [outline_failConnection, outline_abortDown]
    · rw [outline_scheduleReconnect, outline_announceDisconnected (outline_willReconnect _ _),
        outline_endSession]
      show Outline.announces (Outline.endsSession
        { c.abortDown.outline with status := .disconnected }) = _
      rw [outline_abortDown]

theorem outline_triggerClose (err : Option ClientError) :
    (c.triggerClose err).outline = c.outline ∨ (c.triggerClose err).outline = c.outline.closes := by
  rw [triggerClose]
  split
  · rw [outline_handleConnectionClosed, outline_closeHandler]
    exact Or.inr rfl
  · exact Or.inl rfl

@[simp] theorem outline_handleReceiveError : c.handleReceiveError.outline = c.outline.fails := by
  rw [handleReceiveError]
  split
  · rename_i h
    rw [Outline.fails, if_pos (show c.outline.status = .connected from h)]
  · exact outline_failConnection _

@[simp] theorem outline_abandon : c.abandon.outline = c.outline.abandons := by
  rw [abandon, outline_rejectAfter, outline_abortDown]
  rfl

theorem status_abandon : c.abandon.status = .disconnected := by
  have h : c.abandon.status = c.outline.abandons.status :=
    congrArg Outline.status (outline_abandon (c := c))
  rwa [Outline.abandons, Outline.status_rejects] at h

theorem link_abandon : c.abandon.link = c.link := by
  have h := congrArg Outline.link (outline_abandon (c := c))
  rwa [Outline.link_abandons] at h

theorem crypto_abandon : (c.abandon.links c.link).cryptoInitComplete =
    (c.links c.link).cryptoInitComplete := by
  have h : (c.abandon.links c.abandon.link).cryptoInitComplete = c.outline.abandons.crypto :=
    congrArg Outline.crypto (outline_abandon (c := c))
  rw [Outline.crypto_abandons, link_abandon] at h
  exact h

@[simp] theorem outline_sayGoodbye (aborted : Bool) :
    (c.sayGoodbye aborted).outline = c.outline.saysGoodbye := by
  rw [sayGoodbye]
  split
  · have htold : (c.tell (.goodbye c.link (!(c.links c.link).cryptoInitComplete))).outline =
        c.outline := outline_tell_none rfl
    exact congrArg Outline.saysGoodbye htold
  · rfl

theorem outline_resolve : c.resolve.outline = { c.outline with awaited := false } := by
  have hkept : ∀ link : Link,
      (if link.settled then link else
        { link with settled := true, promise := some (.ok ()) }).cryptoInitComplete =
          link.cryptoInitComplete ∧
      (if link.settled then link else
        { link with settled := true, promise := some (.ok ()) }).down = link.down := by
    intro link
    split <;> exact ⟨rfl, rfl⟩
  rw [resolve, outline_settle hkept]
  cases h : (c.links c.link).settled <;> simp [Link.awaited, h, outline]

theorem outline_startSession (h : (c.links c.link).traced) :
    c.startSession.outline = { c.outline with session := some c.link }.tell (.started c.link) := by
  rw [startSession, if_pos h]
  exact outline_tell (c := { c with session := some c.link }) (.sessionStart c.link)

/-- An attempt under way completes. -/
theorem outline_markConnected (h : c.outline.Sound) :
    c.markConnected.outline = c.outline.connects := by
  have hold : c.outline.status = c.status := rfl
  rw [markConnected, Outline.connects, hold]
  by_cases hstatus : c.status = .connecting
  · have hawaited : (c.links c.link).awaited = true := h.awaited.trans (decide_eq_true hstatus)
    rw [Link.awaited, Bool.and_eq_true, Bool.not_eq_true'] at hawaited
    have htraced : (({ c with status := .connected } : Lifecycle).resolve.links c.link).traced := by
      simp [resolve, hawaited]
    rw [if_neg (by simp [hstatus, hawaited.2]), if_pos hstatus, outline_enqueue]
    have hstarted := outline_startSession htraced
    rw [outline_resolve] at hstarted
    exact congrArg (fun o : Outline => o.tell (.connected c.link)) hstarted
  · rw [if_pos (Or.inl hstatus), if_neg hstatus]

end Lifecycle

end Teamspeak.Client
