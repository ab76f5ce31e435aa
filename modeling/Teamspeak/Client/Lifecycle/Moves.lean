import Teamspeak.Client.Lifecycle.Outline

/-!
# How a client lives

Every function of the client keeps its outline sound, and takes it from one point of its
connection's life to another that `Life.Next` leads to.
-/

namespace Teamspeak.Client

namespace Outline

/-- What is sound stays so, and lives on. -/
def Moves (o o' : Outline) : Prop :=
  o.Sound → o'.Sound ∧ Relation.ReflTransGen Life.Next o.life o'.life

theorem Moves.refl (o : Outline) : Moves o o := fun h => ⟨h, .refl⟩

theorem Moves.trans {o₁ o₂ o₃ : Outline} (h : Moves o₁ o₂) (h' : Moves o₂ o₃) : Moves o₁ o₃ := by
  intro hs
  obtain ⟨hs₂, hlife⟩ := h hs
  obtain ⟨hs₃, hlife'⟩ := h' hs₂
  exact ⟨hs₃, hlife.trans hlife'⟩

variable {o : Outline}

theorem Sound.connecting (h : o.Sound) (hs : o.status = .connecting) :
    o.awaited = true ∧ o.session = none ∧ o.leaving = none := by
  refine ⟨h.awaited.trans (decide_eq_true hs), ?_, ?_⟩
  · rw [h.session, stage, hs]
    rfl
  · cases hl : o.leaving with
    | none => rfl
    | some l => cases hs.symm.trans (h.leaving l hl).1

theorem Sound.connected (h : o.Sound) (hs : o.status = .connected) :
    o.awaited = false ∧ o.session = some o.link ∧ o.leaving = none := by
  refine ⟨h.awaited.trans (decide_eq_false (by simp [hs])), ?_, ?_⟩
  · rw [h.session, stage, hs]
    rfl
  · cases hl : o.leaving with
    | none => rfl
    | some l => cases hs.symm.trans (h.leaving l hl).1

theorem Sound.disconnected (h : o.Sound) (hs : o.status = .disconnected) : o.awaited = false :=
  h.awaited.trans (decide_eq_false (by simp [hs]))

/-- A client that is disconnected need only have told its older links. -/
theorem Wired.of_disconnected (hs : o.status = .disconnected)
    (holder : ∀ a, a < o.link → o.down a = true) (hbegun : 0 < o.link → o.traced = true) :
    o.Wired where
  keys h := by cases hs.symm.trans h
  up h := absurd hs h
  older := holder
  begun := hbegun

theorem Wired.older_downs (h : o.Wired) : ∀ a, a < o.downs.link → o.downs.down a = true := by
  intro a ha
  show (if a = o.link then true else o.down a) = true
  split
  · rfl
  · exact h.older a ha

/-! ### The functions of the client -/

theorem moves_fails (o : Outline) : Moves o o.fails := by
  intro h
  cases hs : o.status with
  | connected =>
    rw [fails, if_pos hs]
    exact ⟨h, .refl⟩
  | disconnected =>
    rw [fails, if_neg (by simp [hs]), if_pos hs, rejects, if_neg (by simp [h.disconnected hs])]
    exact ⟨h, .refl⟩
  | connecting =>
    obtain ⟨ha, hsession, hl⟩ := h.connecting hs
    obtain ⟨status, link, awaited, traced, crypto, down, session, leaving, disconnects, waiting,
      notices⟩ := o
    subst hs ha hsession hl
    refine ⟨⟨rfl, rfl, fun _ hl => (by cases hl), h.waiting, fun _ _ _ _ hl => (by cases hl),
      .of_disconnected rfl h.wired.older h.wired.begun⟩, .single ?_⟩
    have := Life.Next.fails link notices
    rwa [List.append_cons] at this

/-- Once a client is disconnected, `#down` may abort. -/
theorem moves_downs (hs : o.status = .disconnected) : Moves o o.downs := fun h =>
  ⟨⟨h.awaited, h.session, h.leaving, h.waiting, h.overtaken,
    .of_disconnected hs h.wired.older_downs h.wired.begun⟩, .refl⟩

theorem fails_downs (o : Outline) : o.downs.fails = o.fails.downs := by
  obtain ⟨status, link, awaited, traced, crypto, down, session, leaving, disconnects, waiting,
    notices⟩ := o
  cases status <;> cases awaited <;> rfl

theorem moves_closes (o : Outline) : Moves o o.closes := by
  intro h
  cases hs : o.status with
  | connected =>
    obtain ⟨ha, hsession, hl⟩ := h.connected hs
    obtain ⟨status, link, awaited, traced, crypto, down, session, leaving, disconnects, waiting,
      notices⟩ := o
    subst hs ha hl
    obtain rfl : session = some link := hsession
    refine ⟨⟨rfl, rfl, fun _ hl => (by cases hl), h.waiting, fun _ _ _ _ hl => (by cases hl),
      .of_disconnected rfl h.wired.older_downs h.wired.begun⟩, .single ?_⟩
    have := Life.Next.drops link notices
    rwa [List.append_cons] at this
  | disconnected =>
    rw [closes, if_pos hs]
    exact ⟨h, .refl⟩
  | connecting =>
    rw [closes, if_neg (by simp [hs]), if_pos (by simp [hs]), fails_downs]
    have hfailed : o.fails.status = .disconnected := by
      rw [fails, if_neg (by simp [hs]), if_neg (by simp [hs])]
      rfl
    exact ((moves_fails o).trans (moves_downs hfailed)) h

/-- An attempt completes once its keys are there. -/
theorem moves_connects (hkeys : o.crypto = true) : Moves o o.connects := by
  intro h
  by_cases hs : o.status = .connecting
  · obtain ⟨ha, hsession, hl⟩ := h.connecting hs
    obtain ⟨status, link, awaited, traced, crypto, down, session, leaving, disconnects, waiting,
      notices⟩ := o
    subst hs ha hsession hl hkeys
    refine ⟨⟨rfl, rfl, fun _ hl => (by cases hl), h.waiting, fun _ _ _ _ hl => (by cases hl),
      ⟨fun _ => rfl, fun _ => h.wired.up (fun hs => by cases hs), h.wired.older, h.wired.begun⟩⟩,
      .single ?_⟩
    have := Life.Next.connects link notices
    rwa [List.append_cons] at this
  · rw [connects, if_neg hs]
    exact ⟨h, .refl⟩

/-- A client that is not leaving, and not connected, connects. -/
theorem moves_begins (hs : o.status = .disconnected) (hl : o.leaving = none) :
    Moves o o.begins := by
  intro h
  have hsession := h.session
  obtain ⟨status, link, awaited, traced, crypto, down, session, leaving, disconnects, waiting,
    notices⟩ := o
  subst hs hl
  obtain rfl : session = none := hsession
  refine ⟨⟨rfl, rfl, fun _ hl => (by cases hl), h.waiting, fun _ _ _ _ hl => (by cases hl),
    ⟨fun hs => (by cases hs), fun _ => if_pos rfl, ?_, fun _ => rfl⟩⟩,
    .single (Life.Next.begins link notices)⟩
  intro a ha
  show (if a = link + 1 then false else if a = link then true else down a) = true
  have hlt : a < link + 1 := ha
  rw [if_neg hlt.ne]
  split
  · rfl
  · rename_i hne
    exact h.wired.older a (lt_of_le_of_ne (Nat.le_of_lt_succ hlt) hne)

/-- A call comes to wait for something. -/
theorem moves_awaits (k : ConnectID) {waiting : Waiting}
    (hw : ∀ d, waiting.disconnects? = some d → d ≤ o.disconnects ∧
      ∀ l, o.leaving = some l → d < l.id ∨ waiting = .leaving d l.id) :
    Moves o (o.awaits k waiting) := by
  intro h
  refine ⟨⟨h.awaited, h.session, h.leaving, ?_, ?_,
    ⟨h.wired.keys, h.wired.up, h.wired.older, h.wired.begun⟩⟩, .refl⟩
  · intro j d hd
    dsimp only [awaits] at hd
    split at hd
    · exact (hw d hd).1
    · exact h.waiting j d hd
  · intro j d l hd hl
    dsimp only [awaits] at hd ⊢
    split at hd
    · rename_i hj
      rw [if_pos hj]
      exact (hw d hd).2 l hl
    · rename_i hj
      rw [if_neg hj]
      exact h.overtaken j d l hd hl

/-- A call that is past its first waits. -/
theorem moves_awaits_late (k : ConnectID) {waiting : Waiting}
    (hw : waiting.disconnects? = none) : Moves o (o.awaits k waiting) :=
  moves_awaits k fun d hd => by cases hw.symm.trans hd

/-- `#leave` once the goodbye is through, or where there is none. -/
theorem moves_leave {id : Nat} {a n : Nat} (hl : o.leaving = some ⟨id, a, true, n⟩) (m : Nat) :
    Moves o (o.leave ⟨id, a, false, m⟩) := by
  intro h
  obtain ⟨hs, hlink, hid⟩ := h.leaving _ hl
  have hawaited := h.disconnected hs
  have hsession := h.session
  obtain ⟨status, link, awaited, traced, crypto, down, session, leaving, disconnects, waiting,
    notices⟩ := o
  subst hs hl hawaited
  have hgoodbye : ∀ k d l, (waiting k).disconnects? = some d →
      some (⟨id, a, false, m⟩ : Leaving) = some l → d < l.id ∨ waiting k = .leaving d l.id := by
    intro k d l hd heq
    cases heq
    exact h.overtaken k d ⟨id, a, true, n⟩ hd rfl
  cases session with
  | none =>
    refine ⟨⟨rfl, rfl, ?_, h.waiting, hgoodbye, .of_disconnected rfl h.wired.older h.wired.begun⟩,
      .single (Life.Next.left link notices)⟩
    intro l heq
    cases heq
    exact ⟨rfl, hlink, hid⟩
  | some b =>
    have hb : b = link := by simpa [stage, goodbye, Stage.inSession] using hsession
    subst hb
    refine ⟨⟨rfl, rfl, ?_, h.waiting, hgoodbye, .of_disconnected rfl h.wired.older h.wired.begun⟩,
      .single ?_⟩
    · intro l heq
      cases heq
      exact ⟨rfl, hlink, hid⟩
    · have := Life.Next.leftSession b notices
      rwa [List.append_cons] at this

/-- `disconnect()` is through. -/
theorem moves_left {id : Nat} {a n : Nat} (hl : o.leaving = some ⟨id, a, false, n⟩) :
    Moves o { o with leaving := none } := by
  intro h
  obtain ⟨hs, -, -⟩ := h.leaving _ hl
  have hawaited := h.disconnected hs
  have hsession := h.session
  obtain ⟨status, link, awaited, traced, crypto, down, session, leaving, disconnects, waiting,
    notices⟩ := o
  subst hs hl hawaited
  exact ⟨⟨rfl, hsession, fun _ hl => (by cases hl), h.waiting, fun _ _ _ _ hl => (by cases hl),
    .of_disconnected rfl h.wired.older h.wired.begun⟩, .refl⟩

/-- `disconnect()` says goodbye. -/
theorem moves_saysGoodbye (hs : o.status ≠ .disconnected) :
    Moves o ({ o with disconnects := o.disconnects + 1 } : Outline).abandons.saysGoodbye := by
  intro h
  have hle : ∀ k d, (o.waiting k).disconnects? = some d → d ≤ o.disconnects + 1 :=
    fun k d hd => Nat.le_succ_of_le (h.waiting k d hd)
  have hlt : ∀ k d l, (o.waiting k).disconnects? = some d →
      some (⟨o.disconnects + 1, o.link, true, 0⟩ : Leaving) = some l →
        d < l.id ∨ o.waiting k = .leaving d l.id := by
    intro k d l hd heq
    cases heq
    exact Or.inl (Nat.lt_succ_of_le (h.waiting k d hd))
  have hleaving : ∀ l, some (⟨o.disconnects + 1, o.link, true, 0⟩ : Leaving) = some l →
      ClientStatus.disconnected = .disconnected ∧ l.link = o.link ∧ l.id ≤ o.disconnects + 1 := by
    intro l heq
    cases heq
    exact ⟨rfl, rfl, Nat.le_refl _⟩
  cases hstatus : o.status with
  | disconnected => exact absurd hstatus hs
  | connecting =>
    obtain ⟨ha, hsession, hl⟩ := h.connecting hstatus
    obtain ⟨status, link, awaited, traced, crypto, down, session, leaving, disconnects, waiting,
      notices⟩ := o
    subst hstatus ha hsession hl
    exact ⟨⟨rfl, rfl, hleaving, hle, hlt, .of_disconnected rfl h.wired.older_downs h.wired.begun⟩,
      .single (Life.Next.givesUp link notices)⟩
  | connected =>
    obtain ⟨ha, hsession, hl⟩ := h.connected hstatus
    obtain ⟨status, link, awaited, traced, crypto, down, session, leaving, disconnects, waiting,
      notices⟩ := o
    subst hstatus ha hl
    obtain rfl : session = some link := hsession
    exact ⟨⟨rfl, rfl, hleaving, hle, hlt, .of_disconnected rfl h.wired.older_downs h.wired.begun⟩,
      .single (Life.Next.leaves link notices)⟩

/-- Who left before does not matter to `#leave`. -/
theorem leave_saysGoodbye (leaving : Leaving) : o.saysGoodbye.leave leaving = o.leave leaving := by
  obtain ⟨status, link, awaited, traced, crypto, down, session, ol, disconnects, waiting,
    notices⟩ := o
  cases session with
  | none => rfl
  | some a => rfl

/-- `disconnect()` on a client that is disconnected or leaves already. -/
theorem moves_disconnects (o : Outline) :
    Moves o { o with disconnects := o.disconnects + 1 } := by
  intro h
  refine ⟨⟨h.awaited, h.session, ?_, ?_, h.overtaken,
    ⟨h.wired.keys, h.wired.up, h.wired.older, h.wired.begun⟩⟩,
    .refl⟩
  · intro l hl
    obtain ⟨hs, hlink, hid⟩ := h.leaving l hl
    exact ⟨hs, hlink, Nat.le_succ_of_le hid⟩
  · intro k d hd
    exact Nat.le_succ_of_le (h.waiting k d hd)

end Outline

namespace Lifecycle

open Outline

variable {c c' : Lifecycle}

theorem moves_of_eq (h : c'.outline = c.outline) : Moves c.outline c'.outline := by
  rw [h]
  exact .refl _

theorem moves_markConnected (hkeys : (c.links c.link).cryptoInitComplete = true) :
    Moves c.outline c.markConnected.outline := by
  intro h
  rw [outline_markConnected h]
  exact moves_connects hkeys h

theorem moves_failConnection (error : ClientError) :
    Moves c.outline (c.failConnection error).outline := by
  rw [outline_failConnection]
  exact moves_fails _

theorem moves_handleConnectionClosed (err : Option ClientError) :
    Moves c.outline (c.handleConnectionClosed err).outline := by
  rw [outline_handleConnectionClosed]
  exact moves_closes _

theorem moves_triggerClose (err : Option ClientError) :
    Moves c.outline (c.triggerClose err).outline := by
  rcases c.outline_triggerClose err with h | h
  · exact moves_of_eq h
  · rw [h]
    exact moves_closes _

/-! ### Rows -/

@[simp] theorem outline_emitServerEvent : c.emitServerEvent.outline = c.outline :=
  outline_enqueue_none rfl

@[simp] theorem outline_emitRaw : c.emitRaw.outline = c.outline := by
  rw [emitRaw]
  split
  · exact outline_emitServerEvent
  · rfl

@[simp] theorem outline_emitKicked (kicked : Bool) : (c.emitKicked kicked).outline = c.outline := by
  rw [emitKicked]
  split
  · exact outline_enqueue_none rfl
  · rfl

@[simp] theorem outline_welcomeFinished : c.welcomeFinished.outline = c.outline := by
  rw [welcomeFinished]
  split
  · split
    · exact outline_enqueue_none (c := c.updateView .finish) rfl
    · rfl
  · rfl

@[simp] theorem outline_foldl_updateView (ops : List (ViewStore.Op ClientError)) :
    (ops.foldl updateView c).outline = c.outline := by
  induction ops generalizing c with
  | nil => rfl
  | cons op ops ih => exact ih (c := c.updateView op)

theorem moves_removedByServer (reason : Nat) :
    Moves c.outline (c.removedByServer reason).outline := by
  rw [removedByServer, outline_closeHandler]
  exact moves_handleConnectionClosed _

/-- The keys come to be there. -/
theorem moves_cryptoInit :
    Moves c.outline
      (c.modifyLink c.link fun link => { link with cryptoInitComplete := true }).outline := by
  intro h
  have hdown : (fun a => if a = c.link then (c.links c.link).down else (c.links a).down) =
      fun a => (c.links a).down := by
    funext a
    split
    · rename_i ha
      rw [ha]
    · rfl
  rw [outline_modifyLink_self]
  dsimp only
  rw [hdown]
  exact ⟨⟨h.awaited, h.session, h.leaving, h.waiting, h.overtaken,
    ⟨fun _ => rfl, h.wired.up, h.wired.older, h.wired.begun⟩⟩, .refl⟩

theorem moves_handleInitServer (hkeys : (c.links c.link).cryptoInitComplete = true)
    (params : Params) (valid : Bool) :
    Moves c.outline (c.handleInitServer params valid).1.outline := by
  rw [handleInitServer]
  split
  · cases valid with
    | true => exact moves_markConnected (c := c.updateView (.seedServer params)) hkeys
    | false => exact .refl _
  · exact .refl _

theorem moves_handleRow (row : Row) : Moves c.outline (c.handleRow row).1.outline := by
  unfold handleRow
  split
  · exact .refl _
  · rename_i hguard
    cases row with
    | voice => exact moves_of_eq outline_emitServerEvent
    | cryptoInit => exact moves_cryptoInit
    | initserver params valid =>
      refine moves_handleInitServer ?_ params valid
      by_contra hkeys
      exact hguard ⟨Bool.eq_false_iff.mpr hkeys, rfl⟩
    | error code =>
      cases code with
      | none => exact .refl _
      | some code => exact moves_failConnection _
    | channellistfinished => exact moves_of_eq outline_welcomeFinished
    | channellist row =>
      dsimp only
      split
      · exact .refl _
      · exact .refl _
    | selfLeft reason kicked self =>
      have hemitted : ((c.updateView (.rosterDelete self)).emitServerEvent.emitKicked kicked).outline =
          c.outline := by simp
      have hremoved := moves_removedByServer
        (c := (c.updateView (.rosterDelete self)).emitServerEvent.emitKicked kicked) reason
      rw [hemitted] at hremoved
      simpa using hremoved
    | notification event kicked ops =>
      apply moves_of_eq
      dsimp only
      split <;> simp
    | unwritten err => exact moves_triggerClose (some err)
    | malformed => exact .refl _

theorem moves_handleRows (rows : List Row) : Moves c.outline (c.handleRows rows).outline := by
  induction rows generalizing c with
  | nil => exact .refl _
  | cons row rows ih =>
    simp only [handleRows]
    refine (moves_handleRow row).trans ?_
    split
    · exact ih
    · rw [outline_handleReceiveError]
      exact moves_fails _

/-! ### Calls -/

theorem outline_resetForConnect :
    c.resetForConnect.outline =
      { c.outline with
        link := c.link + 1
        awaited := false
        traced := false
        crypto := false
        down := fun a => if a = c.link + 1 then false else c.outline.downs.down a } := by
  have hclosed : c.closeHandler.abortDown.outline = c.outline.downs := by
    rw [outline_abortDown, outline_closeHandler]
  rw [resetForConnect, outline_updateView]
  refine (outline_modifyLink_self
    (c := { c.closeHandler.abortDown with link := c.link + 1 }) fun _ => {}).trans ?_
  rw [← hclosed]
  rfl

theorem settled_resetForConnect :
    (c.resetForConnect.links c.resetForConnect.link).settled = false := by
  simp [resetForConnect, updateView, modifyLink]

theorem outline_startAttempt (call : Connecting) :
    (c.startAttempt call).outline = c.outline.begins := by
  have hreset : ({ c with stopped := false } : Lifecycle).resetForConnect.outline =
      { c.outline with
        link := c.link + 1
        awaited := false
        traced := false
        crypto := false
        down := fun a => if a = c.link + 1 then false else c.outline.downs.down a } :=
    outline_resetForConnect
  have hsettled := settled_resetForConnect (c := { c with stopped := false })
  rw [startAttempt]
  generalize ({ c with stopped := false } : Lifecycle).resetForConnect = d at hreset hsettled
  have hbegun : (({ d with status := .connecting } : Lifecycle).modifyLink d.link fun link =>
      { link with traced := true, number := call.number, reconnect := call.reconnect }).outline =
        c.outline.begins := by
    refine (outline_settle (c := { d with status := .connecting })
      (f := fun link =>
        { link with traced := true, number := call.number, reconnect := call.reconnect })
      fun _ => ⟨rfl, rfl⟩).trans ?_
    show { d.outline with
      status := .connecting, awaited := !(d.links d.link).settled, traced := true } = _
    rw [hreset, hsettled]
    rfl
  dsimp only
  split
  · rw [outline_tell_none rfl]
    exact hbegun
  · exact hbegun

theorem moves_modifyConnect (k : ConnectID) {f : Connecting → Connecting} {waiting : Waiting}
    (hf : ∀ call, (f call).waiting = waiting) (hw : waiting.disconnects? = none) :
    Moves c.outline (c.modifyConnect k f).outline := by
  rw [outline_modifyConnect_waiting k hf]
  exact moves_awaits_late k hw

theorem moves_finish (k : ConnectID) (result : Except ClientError Unit) :
    Moves c.outline (c.finish k result).outline := moves_modifyConnect k (fun _ => rfl) rfl

theorem moves_await (k : ConnectID) {waiting : Waiting} (hw : waiting.disconnects? = none) :
    Moves c.outline (c.await k waiting).outline := moves_modifyConnect k (fun _ => rfl) hw

/-- Nobody leaves: who does was called since, and so overtook the call. -/
theorem not_leaving (h : c.outline.Sound) {d : Nat} (hsame : c.disconnects = d)
    (hl : ∀ l, c.leaving = some l → d < l.id) : c.leaving = none := by
  cases hleaving : c.leaving with
  | none => rfl
  | some l =>
    have hid : l.id ≤ c.disconnects := (h.leaving l hleaving).2.2
    have hlt := hl l hleaving
    omega

/-- A call goes on from where it has waited: what it waited for at first is no longer being
left, or it was overtaken. -/
theorem moves_proceed (k : ConnectID) {d : Nat} (hd : d ≤ c.disconnects)
    (hl : ∀ l, c.leaving = some l → d < l.id) : Moves c.outline (c.proceed k d).outline := by
  rw [proceed]
  split
  · rw [outline_await]
    refine moves_awaits k fun d' hd' => ?_
    cases hd'
    exact ⟨hd, fun l hleaving => Or.inl (hl l hleaving)⟩
  · split
    · exact moves_finish k _
    · split
      · exact moves_finish k _
      · split
        · exact moves_finish k _
        · rename_i hsame hstatus _
          rw [not_not] at hsame hstatus
          intro h
          have hnone : c.outline.leaving = none := not_leaving h hsame hl
          have hbegun := moves_begins hstatus hnone
          rw [← outline_startAttempt (c.connects k)] at hbegun
          exact (hbegun.trans (moves_modifyConnect k (fun _ => rfl) rfl)) h

theorem moves_connect (number : Nat) (reconnect signal : Bool) (aborted : Option ClientError) :
    Moves c.outline (c.connect number reconnect signal aborted).outline := by
  have hnew : Moves c.outline
      (({ c with nextConnect := c.nextConnect + 1 } : Lifecycle).modifyConnect c.nextConnect
        fun _ => { number, reconnect, signal }).outline :=
    moves_modifyConnect (c := { c with nextConnect := c.nextConnect + 1 }) c.nextConnect
      (fun _ => rfl) rfl
  refine hnew.trans ?_
  unfold connect
  dsimp only
  split
  · exact moves_finish _ _
  · split
    · rename_i l hleaving
      rw [outline_await]
      refine moves_awaits _ fun d hd => ?_
      cases hd
      refine ⟨Nat.le_refl _, fun l' hl' => Or.inr ?_⟩
      cases hleaving.symm.trans hl'
      rfl
    · rename_i hleaving
      exact moves_proceed _ (Nat.le_refl _) fun l hl => by cases hleaving.symm.trans hl

theorem moves_woken (k : ConnectID) : Moves c.outline (c.woken k).outline := by
  rw [woken]
  cases hw : (c.connects k).waiting with
  | leaving d id =>
    dsimp only
    split
    · exact .refl _
    · rename_i hgone
      intro h
      refine moves_proceed k (h.waiting k d (by simp [outline, hw, Waiting.disconnects?])) ?_ h
      intro l hl
      refine (h.overtaken k d l (by simp [outline, hw, Waiting.disconnects?]) hl).resolve_right ?_
      intro heq
      cases hw.symm.trans heq
      exact hgone (by rw [hl, Option.map_some])
  | delivered d n =>
    dsimp only
    split
    · exact .refl _
    · intro h
      refine moves_proceed k (h.waiting k d (by simp [outline, hw, Waiting.disconnects?])) ?_ h
      intro l hl
      refine (h.overtaken k d l (by simp [outline, hw, Waiting.disconnects?]) hl).resolve_right ?_
      intro heq
      cases hw.symm.trans heq
  | settling =>
    dsimp only
    split
    · exact .refl _
    · exact moves_finish k _
  | resolving => exact .refl _
  | opening => exact .refl _
  | done result => exact .refl _

theorem moves_resolved (k : ConnectID) (result : Except ClientError Unit) :
    Moves c.outline (c.resolved k result).outline := by
  unfold resolved
  cases (c.connects k).waiting with
  | resolving =>
    cases result with
    | ok =>
      dsimp only
      split
      · exact moves_await k rfl
      · exact moves_await k rfl
    | error e => exact (moves_failConnection e).trans (moves_await k rfl)
  | _ => exact .refl _

theorem moves_opened (k : ConnectID) (result : Except ClientError Unit) :
    Moves c.outline (c.opened k result).outline := by
  unfold opened
  cases (c.connects k).waiting with
  | opening =>
    cases result with
    | ok =>
      dsimp only
      split
      · exact (moves_failConnection _).trans (moves_await k rfl)
      · have hopened : (c.modifyLink (c.connects k).link fun link =>
            { link with opened := true }).outline = c.outline :=
          outline_modifyLink _ fun _ => ⟨rfl, rfl, rfl, rfl⟩
        exact (moves_of_eq hopened).trans (moves_await k rfl)
    | error e => exact (moves_failConnection e).trans (moves_await k rfl)
  | _ => exact .refl _

theorem moves_aborts (k : ConnectID) (reason : ClientError) :
    Moves c.outline (c.aborts k reason).outline := by
  rw [aborts]
  split
  · split
    · exact moves_finish k _
    · exact .refl _
  · split
    · exact moves_finish k _
    · exact .refl _
  · split
    · have hdeaf : (c.modifyConnect k fun call => { call with listening := false }).outline =
          c.outline := outline_modifyConnect k fun _ => rfl
      exact (moves_of_eq hdeaf).trans (moves_failConnection reason)
    · exact .refl _

/-! ### Leaving -/

theorem outline_leave (id : Nat) {a : LinkID} (ha : a = c.link) :
    (c.leave id a).outline =
      c.outline.leave ⟨id, a, false, (c.closeHandler.endSession .disconnect).announced⟩ := by
  have hended : (c.closeHandler.endSession .disconnect).outline = c.outline.endsSession := by
    rw [outline_endSession, outline_closeHandler]
  have hlink : a = (c.closeHandler.endSession .disconnect).link := by
    have h := congrArg Outline.link hended
    rw [link_endsSession] at h
    exact ha.trans h.symm
  have hannounced := outline_announceDisconnected (c := c.closeHandler.endSession .disconnect) rfl
    none false
  rw [hended, ← hlink] at hannounced
  exact congrArg (fun o : Outline =>
    { o with
      leaving := some ⟨id, a, false, (c.closeHandler.endSession .disconnect).announced⟩ }) hannounced

theorem moves_goodbyeEnded : Moves c.outline c.goodbyeEnded.outline := by
  rw [goodbyeEnded]
  split
  · rename_i id a n hl
    intro h
    have ha := (h.leaving _ hl).2.1
    rw [outline_leave id ha]
    exact moves_leave hl _ h
  · exact .refl _

theorem moves_left : Moves c.outline c.left.outline := by
  rw [left]
  split
  · rename_i id a n hl
    split
    · exact .refl _
    · have hleft : (({ c with leaving := none } : Lifecycle).modifyLink a fun link =>
            { link with
              promise := link.promise.or (some (.error (.made .notConnected c.clock))) }).outline =
          { c.outline with leaving := none } :=
        outline_modifyLink (c := { c with leaving := none }) a fun _ => ⟨rfl, rfl, rfl, rfl⟩
      rw [hleft]
      exact Outline.moves_left (o := c.outline) hl
  · exact .refl _

/-- Who is not disconnected says goodbye, or leaves without. -/
theorem moves_abandon {o : Outline} (hs : o.status ≠ .disconnected)
    (hc : c.outline = { o with disconnects := o.disconnects + 1 }) (aborted : Bool) :
    Moves o (c.abandon.sayGoodbye aborted).outline ∧
      Moves o (c.abandon.leave c.disconnects c.link).outline := by
  have hmoves := moves_saysGoodbye hs
  rw [← hc] at hmoves
  constructor
  · rw [outline_sayGoodbye, outline_abandon]
    exact hmoves
  · rw [outline_leave c.disconnects link_abandon.symm, outline_abandon, ← leave_saysGoodbye]
    refine hmoves.trans (moves_leave (n := 0) ?_ _)
    rw [saysGoodbye, disconnects_abandons, link_abandons]
    rfl

theorem moves_disconnect (aborted : Bool) : Moves c.outline (c.disconnect aborted).outline := by
  rw [disconnect]
  dsimp only
  split
  · exact moves_disconnects c.outline
  · rename_i hgoing
    obtain ⟨hgoodbye, hleave⟩ := moves_abandon (o := c.outline)
      (c := { c with stopped := true, disconnects := c.disconnects + 1 })
      (fun hs => hgoing (Or.inr hs)) rfl aborted
    split
    · exact hgoodbye
    · exact hleave

theorem leave_kept (id : Nat) (a : LinkID) :
    (c.leave id a).status = c.status ∧ (c.leave id a).link = c.link := by
  simp only [leave, endSession]
  split <;> exact ⟨rfl, rfl⟩

/-- Who has called `disconnect()` is disconnected. -/
theorem status_disconnect (h : c.outline.Sound) (aborted : Bool) :
    (c.disconnect aborted).status = .disconnected ∧ (c.disconnect aborted).link = c.link := by
  rw [disconnect]
  dsimp only
  split
  · rename_i hgone
    refine ⟨?_, rfl⟩
    rcases hgone with hleaving | hs
    · obtain ⟨l, hl⟩ := Option.isSome_iff_exists.mp hleaving
      exact (h.leaving l hl).1
    · exact hs
  · split
    · refine ⟨?_, ?_⟩
      · rw [sayGoodbye]
        split <;> exact status_abandon
      · rw [sayGoodbye]
        split <;> exact link_abandon
    · obtain ⟨hstatus, hlink⟩ := leave_kept
        (c := ({ c with stopped := true, disconnects := c.disconnects + 1 } : Lifecycle).abandon)
        (c.disconnects + 1) c.link
      exact ⟨hstatus.trans status_abandon, hlink.trans link_abandon⟩

/-! ### Steps -/

theorem moves_slept : Moves c.outline c.slept.outline := by
  unfold slept
  split
  · rename_i attempt _
    split
    · exact .refl _
    · exact moves_connect (c := { c with loopAttempt := attempt }) attempt true true none
  · exact .refl _

@[simp] theorem outline_resumed : c.resumed.outline = c.outline := by
  unfold resumed
  split
  · split
    · split
      · rfl
      · exact outline_round _ _
    · split
      · rfl
      · exact outline_round _ _
    · rfl
  · rfl

@[simp] theorem outline_deliver : c.deliver.outline = c.outline := by
  rw [deliver]
  split
  · rfl
  · exact outline_tell_none (c := { c with queue := _ }) rfl

@[simp] theorem outline_delivered : c.delivered.outline = c.outline := by
  rw [delivered]
  split <;> rfl

@[simp] theorem outline_issue : c.issue.outline = c.outline := by
  rw [issue]
  split
  · exact outline_tell_none rfl
  · rfl

@[simp] theorem outline_handOn (n : LineID) : (c.handOn n).outline = c.outline := by
  rw [handOn]
  split
  · exact outline_tell_none rfl
  · rfl

theorem moves_step (e : Event) : Moves c.outline (c.step e).outline := by
  show Moves c.outline (c.happen e).outline
  cases e with
  | connect signal aborted => exact moves_connect 1 false signal aborted
  | woken k => exact moves_woken k
  | resolved k result => exact moves_resolved k result
  | opened k result => exact moves_opened k result
  | aborts k reason => exact moves_aborts k reason
  | disconnect aborted => exact moves_disconnect aborted
  | goodbyeEnded => exact moves_goodbyeEnded
  | left => exact moves_left
  | closes err => exact moves_triggerClose err
  | datagram rows =>
    show Moves c.outline (c.receive rows).outline
    rw [receive]
    split
    · exact moves_handleRows rows
    · exact .refl _
  | slept => exact moves_slept
  | resumed => exact moves_of_eq outline_resumed
  | deliver => exact moves_of_eq outline_deliver
  | delivered => exact moves_of_eq outline_delivered
  | issue => exact moves_of_eq outline_issue
  | cut n => exact .refl _
  | returns n => exact .refl _
  | handOn n => exact moves_of_eq (outline_handOn n)
  | read op =>
    apply moves_of_eq
    simp only [happen]
    split <;> rfl
  | listen raw => exact .refl _

/-! ### Runs -/

theorem sound_new (reconnect : Option ReconnectOptions) (addressable : Bool) :
    (new reconnect addressable).outline.Sound where
  awaited := rfl
  session := rfl
  leaving l hl := by cases hl
  waiting k d hd := by cases hd
  overtaken k d l _ hl := by cases hl
  wired := .of_disconnected rfl (fun a ha => absurd ha (Nat.not_lt_zero a)) fun h =>
    absurd h (Nat.lt_irrefl 0)

/-- The outline is sound, and its life one that a connection can have. -/
structure Lives (c : Lifecycle) : Prop where
  sound : c.outline.Sound
  reached : Relation.ReflTransGen Life.Next {} c.outline.life

theorem Lives.step (h : c.Lives) (e : Event) : (c.step e).Lives := by
  obtain ⟨hsound, hlife⟩ := moves_step e h.sound
  exact ⟨hsound, h.reached.trans hlife⟩

theorem lives_new (reconnect : Option ReconnectOptions) (addressable : Bool) :
    (new reconnect addressable).Lives := ⟨sound_new reconnect addressable, .refl⟩

theorem lives_run (reconnect : Option ReconnectOptions) (addressable : Bool) (es : List Event) :
    (run Lifecycle.step (new reconnect addressable) es).Lives :=
  run_invariant (fun _ e h => h.step e) es (lives_new reconnect addressable)

end Lifecycle

end Teamspeak.Client
