import Teamspeak.Client.Lifecycle.Effects

/-!
# The view and the end of a connection

* `view_ends_truly`: **the view ends with the connection, and with what `disconnected` tells**:
  until the connection is over the view takes what the server tells, and once it is over the
  view is stale by the error that `disconnected` gives as its cause, with nobody waiting for
  it; and the end of a session tells the cause that `disconnected` tells.  This is so if
  nothing fails while a goodbye is to be answered.
-/

namespace Teamspeak.Client

/-- The view ends by what `disconnected` tells: a value that is no error is wrapped by each of
them. -/
def Tells : Option ClientError → Ending ClientError → Prop
  | none, ending => ending = (Cause.disconnect : Cause ClientError).ending
  | some e, ending => ending = e.cause.ending ∨
      ∃ v clock, e = .made (.wrapped v) clock ∧ ending = (ClientError.value v).cause.ending

theorem tells_asError (error : ClientError) (clock : Nat) :
    Tells (some (error.asError clock)) error.cause.ending := by
  cases error with
  | value v => exact Or.inr ⟨v, clock, rfl, rfl⟩
  | made error clock => exact Or.inl rfl
  | other n => exact Or.inl rfl

/-- What a session ends with. -/
def causeOf : Option ClientError → Cause ClientError
  | none => .disconnect
  | some e => e.cause

namespace Account

variable {o o' : Account} {p : Prop}

def goodbye (o : Account) : Bool := o.leaving.any Leaving.goodbye

/-- What holds of a view, between one thing that happens and the next. -/
structure Viewed (o : Account) : Prop where
  leaving : ∀ l, o.leaving = some l → o.status = .disconnected ∧ l.link = o.link
  accepting : 0 < o.link → (o.status ≠ .disconnected ∨ o.goodbye = true) → o.view.accepting = true
  ended : 0 < o.link → o.status = .disconnected → o.goodbye = false →
    ∃ error w ending, .queued (.disconnected o.link error w) ∈ o.trace ∧ Tells error ending ∧
      o.view.Ended ending
  ends : ∀ a cause, .sessionEnd a cause ∈ o.trace →
    ∃ error w, .queued (.disconnected a error w) ∈ o.trace ∧ cause = causeOf error

/-- Who is not disconnected does not leave. -/
theorem Viewed.not_goodbye (h : o.Viewed) (hs : o.status ≠ .disconnected) : o.goodbye = false := by
  rw [goodbye]
  cases hl : o.leaving with
  | none => rfl
  | some l => exact absurd (h.leaving l hl).1 hs

theorem goodbye_congr (h : o'.leaving = o.leaving) : o'.goodbye = o.goodbye := by
  rw [goodbye, goodbye, h]

/-- Nothing new ends. -/
theorem Viewed.ends_later (h : o.Viewed) (hlater : Later o o') (hendless : Endless o o') :
    ∀ a cause, .sessionEnd a cause ∈ o'.trace →
      ∃ error w, .queued (.disconnected a error w) ∈ o'.trace ∧ cause = causeOf error := by
  intro a cause hin
  obtain ⟨error, w, htold, hcause⟩ := h.ends a cause (hendless a cause hin)
  exact ⟨error, w, hlater.told htold, hcause⟩

theorem Viewed.frame (h : o.Viewed) (hframe : Frame o o') : o'.Viewed := by
  have hlink := hframe.later.link
  have hgoodbye := goodbye_congr hframe.leaving
  refine ⟨?_, ?_, ?_, h.ends_later hframe.later hframe.endless⟩
  · rw [hframe.leaving, hframe.status, hlink]
    exact h.leaving
  · rw [hlink, hframe.status, hgoodbye]
    exact fun hpos hs => hframe.view.accepting (h.accepting hpos hs)
  · rw [hlink, hframe.status, hgoodbye]
    intro hpos hs hg
    obtain ⟨error, w, ending, htold, htells, hended⟩ := h.ended hpos hs hg
    exact ⟨error, w, ending, hframe.later.told htold, htells, hframe.view.ended ending hended⟩

/-- A connection that ends, and what it tells. -/
theorem Viewed.over (h : o.Viewed) (hlater : Later o o') (hs : o.status ≠ .disconnected)
    (hs' : o'.status = .disconnected) (hleaving : o'.leaving = o.leaving)
    {cause : Cause ClientError} (hview : ViewStore.Kept (o.view.end_ cause) o'.view)
    {error : Option ClientError} {w : Bool}
    (htold : .queued (.disconnected o.link error w) ∈ o'.trace) (htells : Tells error cause.ending)
    (hends : ∀ a cause', .sessionEnd a cause' ∈ o'.trace →
      ∃ error w, .queued (.disconnected a error w) ∈ o'.trace ∧ cause' = causeOf error) :
    o'.Viewed := by
  have hgoodbye : o'.goodbye = false := (goodbye_congr hleaving).trans (h.not_goodbye hs)
  refine ⟨?_, ?_, ?_, hends⟩
  · intro l hl
    rw [hleaving] at hl
    exact absurd (h.leaving l hl).1 hs
  · rintro - (hup | hg)
    · exact absurd hs' hup
    · cases hgoodbye.symm.trans hg
  · intro hpos _ _
    rw [hlater.link] at hpos ⊢
    have haccepting := h.accepting hpos (Or.inl hs)
    exact ⟨error, w, cause.ending, htold, htells,
      hview.ended _ (ViewStore.ended_end_ haccepting cause)⟩

theorem Viewed.fails (h : o.Viewed) (hs : o.status = .connecting) {error : ClientError}
    (hfails : Fails o o' error) : o'.Viewed := by
  obtain ⟨clock, w, htold⟩ := hfails.disconnected
  exact h.over hfails.later (by simp [hs]) hfails.status hfails.leaving hfails.view htold
    (tells_asError error clock) (h.ends_later hfails.later hfails.endless)

theorem Viewed.drops (h : o.Viewed) (hs : o.status = .connected) {error : ClientError}
    (hdrops : Drops o o' error) : o'.Viewed := by
  obtain ⟨w, htold⟩ := hdrops.disconnected
  refine h.over hdrops.later (by simp [hs]) hdrops.status hdrops.leaving hdrops.view htold
    (Or.inl rfl) fun a cause hin => ?_
  rcases hdrops.ends a cause hin with hin | ⟨rfl, rfl⟩
  · obtain ⟨error', w', htold', hcause⟩ := h.ends a cause hin
    exact ⟨error', w', hdrops.later.told htold', hcause⟩
  · exact ⟨some error, w, htold, rfl⟩

theorem Viewed.connects (h : o.Viewed) (hs : o.status = .connecting) (hconnects : Connects o o') :
    o'.Viewed := by
  have hup : o.status ≠ .disconnected := by simp [hs]
  refine ⟨?_, ?_, ?_, h.ends_later hconnects.later hconnects.endless⟩
  · intro l hl
    rw [hconnects.leaving] at hl
    exact absurd (h.leaving l hl).1 hup
  · rw [hconnects.later.link]
    exact fun hpos _ => hconnects.view.accepting (h.accepting hpos (Or.inl hup))
  · intro _ hdisconnected
    cases hconnects.status.symm.trans hdisconnected

theorem Viewed.begins (h : o.Viewed) {k : ConnectID} (hbegins : Begins o o' k) : o'.Viewed := by
  refine ⟨?_, fun _ _ => hbegins.view, ?_, ?_⟩
  · intro l hl
    cases hbegins.leaving.symm.trans hl
  · intro _ hdisconnected
    cases hbegins.status.symm.trans hdisconnected
  · intro a cause hin
    obtain ⟨error, w, htold, hcause⟩ := h.ends a cause (hbegins.endless a cause hin)
    exact ⟨error, w, hbegins.told htold, hcause⟩

theorem Viewed.quits (h : o.Viewed) (hs : o.status ≠ .disconnected) (hquits : Quits o o') :
    o'.Viewed := by
  obtain ⟨l, hl, hlink, hg⟩ := hquits.leaving
  have hgoodbye : o'.goodbye = true := by rw [goodbye, hl, Option.any_some, hg]
  refine ⟨?_, ?_, ?_, h.ends_later hquits.later hquits.endless⟩
  · intro l' hl'
    cases hl.symm.trans hl'
    exact ⟨hquits.status, hlink.trans hquits.later.link.symm⟩
  · rw [hquits.later.link]
    exact fun hpos _ => hquits.view.accepting (h.accepting hpos (Or.inl hs))
  · intro _ _ hnot
    cases hgoodbye.symm.trans hnot

theorem Viewed.leaves (h : o.Viewed) {l : Leaving} (hl : o.leaving = some l)
    (hg : l.goodbye = true) (hleaves : Leaves o o' l.link) : o'.Viewed := by
  obtain ⟨hs, hlink⟩ := h.leaving l hl
  obtain ⟨l', hl', hlink', hg'⟩ := hleaves.leaving
  have hgoodbye : o.goodbye = true := by rw [goodbye, hl, Option.any_some, hg]
  have hgoodbye' : o'.goodbye = false := by rw [goodbye, hl', Option.any_some, hg']
  refine ⟨?_, ?_, ?_, ?_⟩
  · intro l'' hl''
    cases hl'.symm.trans hl''
    exact ⟨hleaves.status.trans hs, hlink'.trans (hlink.trans hleaves.later.link.symm)⟩
  · rintro - (hup | hnot)
    · exact absurd (hleaves.status.trans hs) hup
    · cases hgoodbye'.symm.trans hnot
  · intro hpos _ _
    rw [hleaves.later.link] at hpos ⊢
    have haccepting := h.accepting hpos (Or.inr hgoodbye)
    rw [← hlink]
    exact ⟨none, false, _, hleaves.disconnected, rfl,
      hleaves.view.ended _ (ViewStore.ended_end_ haccepting .disconnect)⟩
  · intro a cause hin
    rcases hleaves.ends a cause hin with hin | ⟨rfl, rfl⟩
    · obtain ⟨error, w, htold, hcause⟩ := h.ends a cause hin
      exact ⟨error, w, hleaves.later.told htold, hcause⟩
    · exact ⟨none, false, hleaves.disconnected, rfl⟩

theorem Viewed.left (h : o.Viewed) (hs : o.status = .disconnected) {l : Leaving}
    (hl : o.leaving = some l) (hg : l.goodbye = false) (hleft : Left o o' l.link) : o'.Viewed := by
  obtain ⟨clock, rfl⟩ := hleft
  have hgoodbye : o.goodbye = false := by rw [goodbye, hl, Option.any_some, hg]
  refine ⟨fun l' hl' => (by cases hl'), ?_, fun hpos hs' _ => h.ended hpos hs' hgoodbye, h.ends⟩
  rintro - (hup | hnot)
  · exact absurd hs hup
  · cases hnot

/-- Whatever happens keeps the view true, if no failure overtakes a goodbye. -/
theorem Viewed.does (h : o.Viewed) (hcalm : o.goodbye = true → ¬p) (hdoes : Does p o o') :
    o'.Viewed ∧ (o'.goodbye = true → ¬p) := by
  cases hdoes with
  | frame hframe =>
    refine ⟨h.frame hframe, ?_⟩
    rwa [goodbye_congr hframe.leaving]
  | overtaken hp error hs hframe =>
    have hgoodbye : o.goodbye = false := by
      rw [Bool.eq_false_iff]
      exact fun hg => hcalm hg hp
    have hended : Viewed { o with view := o.view.end_ error.cause } := by
      refine ⟨h.leaving, ?_, ?_, h.ends⟩
      · rintro - (hup | hg)
        · exact absurd hs hup
        · cases hgoodbye.symm.trans hg
      · intro hpos hs' hg
        obtain ⟨error', w, ending, htold, htells, hstale⟩ := h.ended hpos hs' hg
        exact ⟨error', w, ending, htold, htells, hstale.end_ error.cause⟩
    refine ⟨hended.frame hframe, ?_⟩
    rw [goodbye_congr hframe.leaving]
    exact fun hg => hcalm hg
  | fails error hs hfails =>
    refine ⟨h.fails hs hfails, ?_⟩
    rwa [goodbye_congr hfails.leaving]
  | drops error hs hdrops =>
    refine ⟨h.drops hs hdrops, ?_⟩
    rwa [goodbye_congr hdrops.leaving]
  | connects hs hconnects =>
    refine ⟨h.connects hs hconnects, ?_⟩
    rwa [goodbye_congr hconnects.leaving]
  | begins k hs hl hbegins =>
    refine ⟨h.begins hbegins, ?_⟩
    rw [goodbye, hbegins.leaving]
    exact fun hg => by cases hg
  | takes k htakes =>
    rw [htakes.same]
    exact ⟨⟨h.leaving, h.accepting, h.ended, h.ends⟩, hcalm⟩
  | goes k hgoes =>
    obtain ⟨-, waiting, -, rfl⟩ := hgoes
    exact ⟨⟨h.leaving, h.accepting, h.ended, h.ends⟩, hcalm⟩
  | returns k hreturns =>
    obtain ⟨-, result, -, rfl⟩ := hreturns
    exact ⟨⟨h.leaving, h.accepting, h.ended, h.ends⟩, hcalm⟩
  | quits hp hs hquits => exact ⟨h.quits hs hquits, fun _ => hp⟩
  | leaves l hs hl hg hleaves =>
    refine ⟨h.leaves hl hg hleaves, ?_⟩
    obtain ⟨l', hl', -, hg'⟩ := hleaves.leaving
    rw [goodbye, hl', Option.any_some, hg']
    exact fun hnot => by cases hnot
  | left l hs hl hg hleft =>
    refine ⟨h.left hs hl hg hleft, ?_⟩
    obtain ⟨clock, rfl⟩ := hleft
    exact fun hnot => by cases hnot

theorem Viewed.chain (h : o.Viewed) (hcalm : o.goodbye = true → ¬p)
    (hdoes : Relation.ReflTransGen (Does p) o o') : o'.Viewed := by
  have hboth : o'.Viewed ∧ (o'.goodbye = true → ¬p) := by
    induction hdoes with
    | refl => exact ⟨h, hcalm⟩
    | tail _ hdo ih => exact ih.1.does ih.2 hdo
  exact hboth.1

end Account

namespace Lifecycle

variable {c : Lifecycle}

/-- Nothing fails while a goodbye is to be answered. -/
def Calm (c : Lifecycle) (e : Event) : Prop := c.outline.goodbye = true → ¬c.failing e = true

instance (c : Lifecycle) (e : Event) : Decidable (c.Calm e) := inferInstanceAs (Decidable (_ → _))

/-- What the view, the end of the session and `disconnected` say agrees. -/
structure ViewTrue (c : Lifecycle) : Prop where
  accepting : 0 < c.link → ¬c.Over c.link → c.view.accepting = true
  ended : ∀ error w, .queued (.disconnected c.link error w) ∈ c.trace → c.Over c.link →
    ∃ ending, Tells error ending ∧ c.view.Ended ending
  ends : ∀ a cause error w, .sessionEnd a cause ∈ c.trace →
    .queued (.disconnected a error w) ∈ c.trace → cause = causeOf error

theorem viewed_new (reconnect : Option ReconnectOptions) (addressable : Bool) :
    (new reconnect addressable).account.Viewed where
  leaving l hl := by cases hl
  accepting hpos := absurd hpos (Nat.lt_irrefl 0)
  ended hpos := absurd hpos (Nat.lt_irrefl 0)
  ends a cause hin := absurd hin List.not_mem_nil

theorem viewTrue_of_viewed (h : c.account.Viewed) (hlives : c.Lives) : c.ViewTrue := by
  refine ⟨?_, ?_, ?_⟩
  · intro hpos hover
    apply h.accepting hpos
    by_contra hdown
    rw [not_or, not_not, Bool.not_eq_true] at hdown
    exact hover ⟨hpos, Nat.le_refl _, fun _ => hdown⟩
  · intro error w hin hover
    obtain ⟨hs, hg⟩ := hover.2.2 rfl
    obtain ⟨error', w', ending, htold, htells, hended⟩ := h.ended hover.1 hs hg
    rw [(disconnected_unique hlives hin htold).1]
    exact ⟨ending, htells, hended⟩
  · intro a cause error w hend hin
    obtain ⟨error', w', htold, hcause⟩ := h.ends a cause hend
    rw [(disconnected_unique hlives hin htold).1]
    exact hcause

/-- **The view ends with the connection, by what `disconnected` tells**, if nothing fails while
a goodbye is to be answered. -/
theorem view_ends_truly (reconnect : Option ReconnectOptions) (addressable : Bool)
    (es : List Event) (hcalm : Along step Calm (new reconnect addressable) es) :
    (run step (new reconnect addressable) es).ViewTrue := by
  have hkept : ∀ (c : Lifecycle) (e : Event), (c.Lives ∧ c.account.Viewed) → c.Calm e →
      (c.step e).Lives ∧ (c.step e).account.Viewed := by
    rintro c e ⟨hlives, hviewed⟩ hcalm
    exact ⟨hlives.step e, hviewed.chain hcalm (does_step hlives.sound e)⟩
  obtain ⟨hlives, hviewed⟩ := run_invariant_along hkept
    ⟨lives_new reconnect addressable, viewed_new reconnect addressable⟩ hcalm
  exact viewTrue_of_viewed hviewed hlives

/-- A client that leaves while rows still arrive, and connects again. -/
def leftRun : List Event :=
  [.connect false none, .resolved 0 (.ok ()), .opened 0 (.ok ()),
    .datagram [.cryptoInit, .initserver .empty true, .channellistfinished],
    .disconnect false, .datagram [.voice, .error none], .goodbyeEnded, .deliver, .delivered, .left,
    .connect false none, .resolved 1 (.ok ()), .opened 1 (.ok ()), .closes none]

theorem view_ends_truly_leftRun : Along step Calm (new none true) leftRun ∧
    (run step (new none true) leftRun).ViewTrue := by
  have hcalm : Along step Calm (new none true) leftRun := by decide
  exact ⟨hcalm, view_ends_truly none true leftRun hcalm⟩

end Lifecycle

end Teamspeak.Client
