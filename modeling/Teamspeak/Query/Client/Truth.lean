import Teamspeak.Query.Client.Shows

/-!
# What the status says

* `Sound`: while an attempt asks, its transport is installed, and if that has ended
  already the first command of the setup will fail; a client that is connected has a
  transport that has not ended; and a session that was announced stands, is being torn
  down, or has had its end announced.
* `Timely`: the last of a setup finds the client still connecting.
* `tells_truth_iff`: the status tells the truth after every event of a run if and only if
  every event of the run is `Timely`.
-/

namespace Teamspeak.Query

/-! ### Setups that ask -/

/-- Past the opening, and not failed. -/
def Stage.Asking : Stage → Prop
  | .setup _ => True
  | .awaiting _ _ _ => True
  | _ => False

/-- The setup cannot go on without the answer to come. -/
def Stage.Doomed : Stage → Prop
  | .setup (cmd :: _) => cmd.swallowed = false
  | .awaiting _ swallowed _ => swallowed = false
  | _ => False

theorem Stage.Next.asking {answered : Prop} {a b : Stage} (h : Stage.Next answered a b)
    (hb : b.Asking) : a.Asking := by
  cases h with
  | same => exact hb
  | openFails => exact hb.elim
  | discarded => exact hb.elim
  | asks => trivial
  | goesOn => trivial
  | fails => exact hb.elim

/-- A setup that cannot go on without an answer fails for want of one. -/
theorem Stage.Next.doomed {answered : Prop} {a b : Stage} (h : Stage.Next answered a b)
    (hanswered : ¬answered) (ha : a.Doomed) (hb : b.Asking) : b.Doomed := by
  cases h with
  | same => exact ha
  | openFails => exact ha.elim
  | discarded => exact ha.elim
  | asks => exact ha
  | goesOn hgo =>
    rcases hgo with hgo | hgo
    · exact absurd hgo hanswered
    · exact absurd (ha.symm.trans hgo) Bool.false_ne_true
  | fails => exact hb.elim

/-- The first command of every setup is one it cannot do without. -/
theorem doomed_setupCommands (options : Options) (notifications : Bool) :
    (Stage.setup (setupCommands options notifications)).Doomed := by
  rw [setupCommands]
  by_cases htcp : options.kind = .tcp
  · rw [if_pos htcp]
    cases options.login with
    | none =>
      cases options.server with
      | none => rfl
      | some server => rfl
    | some login => rfl
  · rw [if_neg htcp]
    cases options.server with
    | none => rfl
    | some server => rfl

namespace Client

/-- A transport is installed and has not ended. -/
def Standing (s : Client) : Prop := ∃ t, s.transport = some t ∧ t ∉ s.ended

/-- Session `k` over transport `t` is the one there is. -/
def Live (s : Client) (k : Nat) (t : TransportID) : Prop :=
  s.status = .connected ∧ s.generation = k ∧ s.transport = some t

/-- Every session that was announced had a transport; it is there still, is being torn
down, or has had its end announced. -/
def Followed (s : Client) : Prop :=
  ∀ before k o after, s.trace = before ++ .connected k o :: after →
    ∃ t, o = some t ∧ (s.Live k t ∨ .disconnected k ∈ after ∨ s.stopping = some k)

structure Sound (s : Client) : Prop where
  asking : s.status = .connecting → (s.attempts s.generation).Asking →
    ∃ t, s.transport = some t ∧
      (t ∈ s.ended → s.answers.pending = none ∧ (s.attempts s.generation).Doomed)
  connected : s.status = .connected → s.Standing ∧ s.attempts s.generation = .finished
  followed : s.Followed

theorem sound_init : ({} : Client).Sound where
  asking h := by cases h
  connected h := by cases h
  followed before k o after h :=
    absurd h.symm (List.append_ne_nil_of_right_ne_nil _ (List.cons_ne_nil _ _))

variable {s s' : Client}

/-! ### Sessions accounted for -/

/-- Sessions stay accounted for while more is shown, if each that was live or being torn
down is so still or has its end shown. -/
theorem Followed.shows {l : List Output} (h : s.Followed) (hshows : Shows s s' l)
    (hnew : ∀ k o, .connected k o ∉ l)
    (hlive : ∀ k t, s.Live k t → s'.Live k t ∨ .disconnected k ∈ l ∨ s'.stopping = some k)
    (hstopping : ∀ k, s.stopping = some k → .disconnected k ∈ l ∨ s'.stopping = some k) :
    s'.Followed := by
  intro before k o after htrace
  rcases hshows.place htrace with ⟨mid, rest, hmid, rfl, hrest⟩ | ⟨mid, hmid, -⟩
  · obtain ⟨t, ho, haccount⟩ := h before k o mid hmid
    refine ⟨t, ho, ?_⟩
    rcases haccount with hl | hended | hs
    · rcases hlive k t hl with hl | hout | hs
      · exact Or.inl hl
      · exact Or.inr (Or.inl (List.mem_append_right _ ((hrest k).mpr hout)))
      · exact Or.inr (Or.inr hs)
    · exact Or.inr (Or.inl (List.mem_append_left _ hended))
    · rcases hstopping k hs with hout | hs
      · exact Or.inr (Or.inl (List.mem_append_right _ ((hrest k).mpr hout)))
      · exact Or.inr (Or.inr hs)
  · refine absurd ?_ (hnew k o)
    rw [hmid]
    exact List.mem_append_right _ List.mem_cons_self

theorem Sound.quiet (h : s.Sound) (q : Quiet s s') : s'.Sound where
  asking hstatus hasking := by
    rw [q.status] at hstatus
    rw [q.generation] at hasking ⊢
    obtain ⟨t, ht, hended⟩ := h.asking hstatus ((q.stages _).asking hasking)
    refine ⟨t, q.transport.trans ht, fun hmem => ?_⟩
    rw [q.ended] at hmem
    obtain ⟨hpending, hdoomed⟩ := hended hmem
    have hdead : s.Dead := by
      intro u hu
      rw [ht, Option.some.injEq] at hu
      exact hu ▸ hmem
    exact ⟨q.pending hdead hpending, (q.stages _).doomed (not_not_intro hpending) hdoomed hasking⟩
  connected hstatus := by
    rw [q.status] at hstatus
    obtain ⟨⟨t, ht, halive⟩, hover⟩ := h.connected hstatus
    rw [q.generation]
    exact ⟨⟨t, q.transport.trans ht, q.ended ▸ halive⟩, q.finished hover⟩
  followed := by
    refine h.followed.shows q.shows (fun _ _ => List.not_mem_nil) ?_ ?_
    · intro k t hl
      exact Or.inl ⟨q.status.trans hl.1, q.generation.trans hl.2.1, q.transport.trans hl.2.2⟩
    · intro k hs
      exact Or.inr (q.stopping.trans hs)

/-- A client that is disconnected is sound if its sessions are accounted for. -/
theorem sound_of_disconnected (hstatus : s.status = .disconnected) (h : s.Followed) : s.Sound where
  asking hc := by cases hstatus.symm.trans hc
  connected hc := by cases hstatus.symm.trans hc
  followed := h

/-! ### One event -/

theorem Followed.handleClose (h : s.Followed) (options : Options) :
    (s.handleClose options).Sound := by
  refine sound_of_disconnected (status_handleClose options)
    (h.shows (handleClose_shows options) ?_ ?_ ?_)
  · intro k o hmem
    split at hmem
    · cases List.mem_singleton.mp hmem
    · cases hmem
  · intro k t hl
    rw [if_pos hl.1, hl.2.1]
    exact Or.inr (Or.inl List.mem_cons_self)
  · intro k hs
    exact Or.inr ((stopping_handleClose options).trans hs)

theorem Sound.failConnection (h : s.Sound) (options : Options) (k : Nat) :
    (s.failConnection options k).Sound := by
  by_cases hstatus : s.status = .connected
  · rw [Client.failConnection, if_pos hstatus]
    exact h
  · refine sound_of_disconnected (status_failConnection options k hstatus)
      (h.followed.shows (failConnection_shows options k) ?_ ?_ ?_)
    · intro j o hmem
      split at hmem
      · cases List.mem_singleton.mp hmem
      · cases hmem
    · intro j t hl
      exact absurd hl.1 hstatus
    · intro j hs
      exact Or.inr ((stopping_failConnection options k).trans hs)

theorem Sound.disconnect (h : s.Sound) (hw : s.WellFormed) (options : Options) :
    (s.disconnect options).Sound := by
  refine sound_of_disconnected (status_disconnect hw options)
    (h.followed.shows (disconnect_shows options) (fun _ _ => List.not_mem_nil) ?_ ?_)
  · intro k t hl
    have hgoing : ¬(s.stopping ≠ none ∨ s.status = .disconnected) := by
      rintro (hs | hs)
      · cases (hw.stopping hs).1.symm.trans hl.1
      · cases hs.symm.trans hl.1
    rw [stopping_disconnect, if_neg hgoing, hl.2.1]
    exact Or.inr (Or.inr rfl)
  · intro k hs
    rw [stopping_disconnect, if_pos (Or.inl (by simp [hs]))]
    exact Or.inr hs

theorem Sound.tornDown (h : s.Sound) : s.tornDown.Sound := by
  rw [Client.tornDown]
  split
  · exact h
  · rename_i k hk
    refine ⟨h.asking, h.connected, h.followed.shows (l := [.disconnected k])
      (shows_of_trace rfl) (fun _ _ hmem => by cases List.mem_singleton.mp hmem)
      (fun _ _ hl => Or.inl hl) ?_⟩
    intro j hj
    rw [hk, Option.some.injEq] at hj
    exact Or.inl (hj ▸ List.mem_cons_self)

/-- With nothing shown, and no session live, each stays accounted for. -/
theorem Followed.of_not_live (h : s.Followed) (htrace : s'.trace = s.trace)
    (hlive : s.status ≠ .connected) (hstopping : s'.stopping = s.stopping) : s'.Followed := by
  refine h.shows (shows_nil htrace) (fun _ _ => List.not_mem_nil) ?_ ?_
  · intro k t hl
    exact absurd hl.1 hlive
  · intro k hs
    exact Or.inr (hstopping.trans hs)

theorem Sound.connect (h : s.Sound) : s.connect.Sound := by
  rw [Client.connect]
  split
  · rename_i hfree
    exact
      { asking := by
          intro _ hasking
          simp only [setStage, if_true] at hasking
          exact hasking.elim
        connected := fun hc => by cases hc
        followed := h.followed.of_not_live rfl (by simp [hfree.2]) rfl }
  · exact h

/-- Transports that end without being the client's own are nothing to it. -/
theorem Sound.more_ended (h : s.Sound) (closing : List TransportID) {ended : List TransportID}
    (next : Nat) (hended : ∀ t, s.transport = some t → t ∈ ended → t ∈ s.ended) :
    Sound { s with closing, ended, nextTransport := next } where
  asking hstatus hasking := by
    obtain ⟨t, ht, hdead⟩ := h.asking hstatus hasking
    exact ⟨t, ht, fun hmem => hdead (hended t ht hmem)⟩
  connected hstatus := by
    obtain ⟨⟨t, ht, halive⟩, hover⟩ := h.connected hstatus
    exact ⟨⟨t, ht, fun hmem => halive (hended t ht hmem)⟩, hover⟩
  followed := h.followed

theorem Sound.closeTransport (h : s.Sound) (options : Options) {u : TransportID}
    (hne : ∀ t, s.transport = some t → t ≠ u) : (s.closeTransport options u).Sound := by
  rw [Client.closeTransport]
  apply h.more_ended (u :: s.closing) s.nextTransport
  intro t ht hmem
  split at hmem
  · exact (List.mem_cons.mp hmem).resolve_left (hne t ht)
  · exact hmem

theorem Sound.setStage (h : s.Sound) {k : Nat} {stage : Stage}
    (hasking : k = s.generation → ¬stage.Asking)
    (hover : k = s.generation → s.status = .connected → stage = .finished) :
    (s.setStage k stage).Sound where
  asking hstatus hnow := by
    rw [Client.setStage] at hnow ⊢
    dsimp only at hnow ⊢
    by_cases hk : s.generation = k
    · rw [if_pos hk] at hnow
      exact absurd hnow (hasking hk.symm)
    · rw [if_neg hk] at hnow ⊢
      exact h.asking hstatus hnow
  connected hstatus := by
    obtain ⟨hstanding, hwas⟩ := h.connected hstatus
    refine ⟨hstanding, ?_⟩
    rw [attempts_setStage]
    split
    · rename_i hk
      exact hover hk.symm hstatus
    · exact hwas
  followed := h.followed

theorem Sound.opened (h : s.Sound) (hw : s.WellFormed) (options : Options) (k : Nat)
    (notifications alive : Bool) : (s.opened options k notifications alive).Sound := by
  have hfresh : ∀ t, s.transport = some t → t ≠ s.nextTransport := fun t ht =>
    Nat.ne_of_lt (hw.wired t (hw.installed t ht).1)
  rw [Client.opened]
  split
  · rename_i hopening
    have hnext : Sound
        { s with
          nextTransport := s.nextTransport + 1
          ended := if alive then s.ended else s.nextTransport :: s.ended } := by
      refine h.more_ended s.closing (s.nextTransport + 1) fun t ht hmem => ?_
      cases alive with
      | true => exact hmem
      | false => exact (List.mem_cons.mp hmem).resolve_left (hfresh t ht)
    have hclosed := hnext.closeTransport options (u := s.nextTransport) hfresh
    -- The current attempt cannot be opening its transport once it is connected.
    have hover : k = s.generation → s.status ≠ .connected := by
      intro hk hstatus
      rw [hk, (h.connected hstatus).2] at hopening
      cases hopening
    dsimp only
    split
    · exact hclosed.setStage (fun _ ha => ha) fun hk hs => absurd hs (hover hk)
    · rename_i hcurrent
      rw [not_or, not_not, not_not] at hcurrent
      obtain ⟨rfl, hconnecting⟩ := hcurrent
      split
      · exact hclosed.setStage (fun _ ha => ha) fun hk hs => absurd hs (hover hk)
      · exact
          { asking := by
              intro _ _
              refine ⟨s.nextTransport, rfl, fun _ => ⟨rfl, ?_⟩⟩
              rw [attempts_setStage, Client.setStage]
              simp only [if_true]
              exact doomed_setupCommands options notifications
            connected := fun hs => by cases hconnecting.symm.trans hs
            followed := h.followed.of_not_live rfl (by simp [hconnecting]) rfl }
  · exact h

theorem Sound.closes (h : s.Sound) (hw : s.WellFormed) (options : Options) (t : TransportID) :
    (s.closes options t).Sound := by
  rw [Client.closes]
  split
  · dsimp only
    split
    · exact Followed.handleClose (s := { s with ended := t :: s.ended }) h.followed options
    · rename_i hwired
      refine h.more_ended s.closing s.nextTransport fun u hu hmem => ?_
      rcases List.mem_cons.mp hmem with rfl | hmem
      · exact absurd (hw.installed _ hu).1 hwired
      · exact hmem
  · exact h

theorem Sound.fails (h : s.Sound) (options : Options) (k : Nat) : (s.fails options k).Sound := by
  rw [Client.fails]
  split
  · exact (h.failConnection options k).setStage (fun _ ha => ha) fun _ _ => rfl
  · exact h

/-- The last of a setup that finds the client still connecting leaves it connected over a
transport that stands. -/
theorem Sound.goesOn_last (h : s.Sound) (hsetup : s.attempts s.generation = .setup [])
    (hconnecting : s.status = .connecting) : (s.goesOn s.generation).Sound := by
  obtain ⟨t, ht, hended⟩ := h.asking hconnecting (by rw [hsetup]; trivial)
  have halive : t ∉ s.ended := by
    intro hmem
    have hdoomed := (hended hmem).2
    rw [hsetup] at hdoomed
    exact hdoomed
  rw [Client.goesOn, hsetup]
  simp only [if_true]
  exact
    { asking := fun hs => by cases hs
      connected := fun _ => ⟨⟨t, ht, halive⟩, by simp [Client.setStage]⟩
      followed := by
        intro before j o after htrace
        rw [Client.setStage] at htrace
        rcases Log.place_append htrace with ⟨mid, hmid, rfl⟩ | ⟨mid, hmid, -⟩
        · obtain ⟨u, ho, haccount⟩ := h.followed before j o mid hmid
          refine ⟨u, ho, Or.inr ?_⟩
          rcases haccount with hl | hshown | hs
          · cases hconnecting.symm.trans hl.1
          · exact Or.inl (List.mem_append_left _ hshown)
          · exact Or.inr hs
        · cases mid with
          | nil =>
            simp only [List.nil_append, List.cons.injEq, Output.connected.injEq] at hmid
            obtain ⟨⟨rfl, rfl⟩, -⟩ := hmid
            exact ⟨t, ht, Or.inl ⟨rfl, rfl, ht⟩⟩
          | cons a mid =>
            rw [List.cons_append, List.cons.injEq] at hmid
            exact absurd hmid.2.symm (List.append_ne_nil_of_right_ne_nil _ (List.cons_ne_nil _ _)) }

theorem Sound.goesOn (h : s.Sound) {k : Nat}
    (htimely : s.attempts k = .setup [] → k = s.generation → s.status = .connecting) :
    (s.goesOn k).Sound := by
  by_cases hsetup : s.attempts k = .setup []
  · by_cases hk : k = s.generation
    · subst hk
      exact h.goesOn_last hsetup (htimely hsetup rfl)
    · rw [s.goesOn_stale hsetup hk]
      exact h.setStage (fun heq => absurd heq hk) fun heq => absurd heq hk
  · exact h.quiet (s.goesOn_quiet hsetup)

/-- The last of the current attempt's setup finds the client still connecting. -/
def Timely (s : Client) (e : Event) : Prop :=
  ∀ k, e = .goesOn k → s.attempts k = .setup [] → k = s.generation → s.status = .connecting

/-- One event that is timely leaves a sound client. -/
theorem sound_step (integerOf : Str → Option Int) (options : Options) {e : Event}
    (hw : s.WellFormed) (h : s.Sound) (htimely : s.Timely e) :
    (step integerOf options s e).Sound := by
  cases e with
  | connect => exact h.connect
  | disconnect => exact h.disconnect hw options
  | tornDown => exact h.tornDown
  | retry =>
    rw [step, retry]
    split
    · exact ⟨h.connect.asking, h.connect.connected, h.connect.followed⟩
    · exact h
  | loopEnds =>
    rw [step, loopEnds]
    split
    · exact ⟨h.asking, h.connected, h.followed⟩
    · exact h
  | opened k notifications alive => exact h.opened hw options k notifications alive
  | openFails k => exact h.quiet (s.openFails_quiet k)
  | discarded k => exact h.quiet (s.discarded_quiet k)
  | goesOn k => exact h.goesOn (htimely k rfl)
  | fails k => exact h.fails options k
  | exec line => exact h.quiet (s.exec_quiet line)
  | turn aborted => exact h.quiet (s.turn_quiet aborted)
  | write => exact h.quiet s.write_quiet
  | sendFails => exact h.quiet s.sendFails_quiet
  | gaveUp sending => exact h.quiet (s.gaveUp_quiet sending)
  | lateSendFails t => exact h.quiet (s.lateSendFails_quiet t)
  | graceEnds => exact h.quiet s.graceEnds_quiet
  | line t text => exact h.quiet (s.line_quiet options integerOf t text)
  | closes t => exact h.closes hw options t

/-! ### The truth -/

/-- What a status of connected, a `connected` and the end of a transport are to mean, of
a step from `s` to `s'`. -/
structure TellsTruth (s s' : Client) : Prop where
  standing : s'.status = .connected → s'.Standing
  announced : ∀ k o, .connected k o ∈ s'.trace.drop s.trace.length →
    s'.status = .connected ∧ s'.generation = k ∧ s'.transport = o
  /-- The end of a session's transport is followed by its `disconnected`, which is what
  the teardown shows at its end if there is one. -/
  ended : ∀ before k o after, s'.trace = before ++ .connected k o :: after →
    ∃ t, o = some t ∧
      (t ∈ s'.ended → .disconnected k ∈ after ∨ s'.tornDown.trace = s'.trace ++ [.disconnected k])

theorem Sound.ended (h : s.Sound) {before after : List Output} {k : Nat}
    {o : Option TransportID} (htrace : s.trace = before ++ .connected k o :: after) :
    ∃ t, o = some t ∧
      (t ∈ s.ended → .disconnected k ∈ after ∨ s.tornDown.trace = s.trace ++ [.disconnected k]) := by
  obtain ⟨t, ho, haccount⟩ := h.followed before k o after htrace
  refine ⟨t, ho, fun hmem => ?_⟩
  rcases haccount with hl | hshown | hs
  · obtain ⟨⟨u, hu, halive⟩, -⟩ := h.connected hl.1
    rw [hl.2.2, Option.some.injEq] at hu
    exact absurd (hu ▸ hmem) halive
  · exact Or.inl hshown
  · right
    rw [Client.tornDown, hs]
    rfl

/-- In a sound client, an event is timely if and only if the status tells the truth
after it. -/
theorem timely_iff (integerOf : Str → Option Int) (options : Options) {e : Event}
    (hw : s.WellFormed) (h : s.Sound) :
    s.Timely e ↔ TellsTruth s (step integerOf options s e) := by
  constructor
  · intro htimely
    have hsound := sound_step integerOf options hw h htimely
    refine ⟨fun hs => (hsound.connected hs).1, ?_, fun _ _ _ _ => hsound.ended⟩
    intro j o hmem
    rw [(step_shows integerOf options s e).mem_drop (by simp [Output.attempt?])] at hmem
    obtain ⟨rfl, hsetup, rfl, rfl⟩ := connected_mem_shown hmem
    rw [step, Client.goesOn, hsetup]
    simp only [if_true, setStage, and_self]
  · rintro htruth k rfl hsetup rfl
    rw [step, Client.goesOn, hsetup] at htruth
    simp only [if_true] at htruth
    obtain ⟨t, ht, -⟩ := htruth.standing rfl
    rw [setStage] at ht
    cases hstatus : s.status with
    | disconnected => exact absurd hstatus (hw.installed t ht).2
    | connecting => rfl
    | connected =>
      rw [(h.connected hstatus).2] at hsetup
      cases hsetup

/-- **The status tells the truth all along a run** if and only if the last of each setup
finds the client still connecting. -/
theorem tells_truth_iff (integerOf : Str → Option Int) (options : Options) (es : List Event) :
    Along (step integerOf options) (fun s e => TellsTruth s (step integerOf options s e)) {} es ↔
      Along (step integerOf options) Timely {} es := by
  symm
  refine along_congr (I := fun s => s.WellFormed ∧ s.Sound) ?_ ?_ ⟨wellFormed_init, sound_init⟩
  · intro s e h htimely
    exact ⟨wellFormed_step integerOf options s e h.1,
      sound_step integerOf options h.1 h.2 htimely⟩
  · intro s e h
    exact timely_iff integerOf options h.1 h.2

/-- A client that selects a server and registers for its events. -/
def listening : Options where
  kind := .tcp
  server := some (.port 9987)
  events := some ⟨[.server], by decide⟩

/-- Ask for the next of the setup, and have it answered. -/
def answered (rows : List Event) : List Event :=
  [.goesOn 1, .turn false, .write] ++ rows ++ [.line 0 (.of "error id=0 msg=ok"), .graceEnds]

/-- The setup up to where it waits for the list of the clients. -/
def listing : List Event :=
  [.connect, .opened 1 true true] ++ answered [] ++ answered [.line 0 (.of "version=3.13.7")] ++
    answered [.line 0 (.of "client_id=5")] ++ answered [] ++ [.goesOn 1, .turn false, .write]

/-- The transport closes then, and the client is connected with none. -/
theorem tells_truth_listing :
    ¬ Along (step (fun _ => none) listening)
      (fun s e => TellsTruth s (step (fun _ => none) listening s e)) {}
      (listing ++ [.closes 0, .goesOn 1]) := by
  intro h
  have hlast := (along_append.mp h).2.2.1
  obtain ⟨t, ht, -⟩ := hlast.standing (by decide +kernel)
  have hnone : (run (step (fun _ => none) listening) {}
      (listing ++ [.closes 0, .goesOn 1])).transport = none := by decide +kernel
  rw [run_append, run_cons, run_cons, run_nil] at hnone
  rw [hnone] at ht
  cases ht

end Client

end Teamspeak.Query
