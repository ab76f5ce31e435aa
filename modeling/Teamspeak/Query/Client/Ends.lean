import Teamspeak.Query.Client.Ordered

/-!
# One `disconnected` an end

* `Ledger`: no end was announced twice, nor one that `disconnect` is about to announce;
  every session stands, is being torn down or has had its end announced; and between two
  `connected` there is a `disconnected`.
* `Due`: an attempt that is given up, or fails once `disconnect` has resolved, has nothing
  left to announce, and one of the reconnect loop ends with its announcement.
* `ends_once_iff`: each end is announced once along a run if and only if every event is
  `Due`.
-/

namespace Teamspeak.Query

namespace Client

/-- The end of attempt `k` has been announced, or `disconnect` is about to. -/
def Torn (s : Client) (k : Nat) : Prop := .disconnected k ∈ s.trace ∨ s.stopping = some k

structure Ledger (s : Client) : Prop where
  fresh : ∀ k, .disconnected k ∈ s.trace → k ≤ s.generation
  unended : s.status ≠ .disconnected ∨ s.attempts s.generation ≠ .finished →
    .disconnected s.generation ∉ s.trace
  torn : ∀ k, s.stopping = some k → .disconnected k ∉ s.trace
  once : ∀ k, s.trace.count (.disconnected k) ≤ 1
  session : ∀ before k o after, s.trace = before ++ .connected k o :: after →
    (s.status = .connected ∧ s.generation = k) ∨ s.stopping = some k ∨ .disconnected k ∈ after
  between : ∀ before k o mid k' o' after,
    s.trace = before ++ .connected k o :: (mid ++ .connected k' o' :: after) →
      ∃ j, .disconnected j ∈ mid

variable {s s' : Client}

/-- The ledger after more is shown, of which no part is a `connected`. -/
theorem Ledger.shows {l : List Output} (h : s.Ledger) (hshows : Shows s s' l)
    (hnew : ∀ k o, .connected k o ∉ l) (hone : ∀ k, l.count (.disconnected k) ≤ 1)
    (hgeneration : s.generation ≤ s'.generation)
    (hended : ∀ k, .disconnected k ∈ l →
      k ≤ s'.generation ∧ .disconnected k ∉ s.trace ∧ s'.stopping ≠ some k)
    (hunended : s'.status ≠ .disconnected ∨ s'.attempts s'.generation ≠ .finished →
      .disconnected s'.generation ∉ s.trace ∧ .disconnected s'.generation ∉ l)
    (htorn : ∀ k, s'.stopping = some k → .disconnected k ∉ s.trace)
    (hsession : ∀ k, (s.status = .connected ∧ s.generation = k) ∨ s.stopping = some k →
      (s'.status = .connected ∧ s'.generation = k) ∨ s'.stopping = some k ∨
        .disconnected k ∈ l) : s'.Ledger where
  fresh k hk := by
    rcases hshows.mem_disconnected.mp hk with hk | hk
    · exact Nat.le_trans (h.fresh k hk) hgeneration
    · exact (hended k hk).1
  unended hs hk := by
    rcases hshows.mem_disconnected.mp hk with hk | hk
    · exact (hunended hs).1 hk
    · exact (hunended hs).2 hk
  torn k hs hk := by
    rcases hshows.mem_disconnected.mp hk with hk | hk
    · exact htorn k hs hk
    · exact (hended k hk).2.2 hs
  once k := by
    rw [hshows.count_disconnected]
    by_cases hk : .disconnected k ∈ l
    · rw [List.count_eq_zero_of_not_mem (hended k hk).2.1, Nat.zero_add]
      exact hone k
    · rw [List.count_eq_zero_of_not_mem hk]
      exact h.once k
  session before k o after htrace := by
    rcases hshows.place htrace with ⟨mid, rest, hmid, rfl, hrest⟩ | ⟨mid, hmid, -⟩
    · have hold : ((s.status = .connected ∧ s.generation = k) ∨ s.stopping = some k) ∨
          .disconnected k ∈ mid := by
        rcases h.session before k o mid hmid with hl | hs | hd
        · exact Or.inl (Or.inl hl)
        · exact Or.inl (Or.inr hs)
        · exact Or.inr hd
      rcases hold with hold | hold
      · rcases hsession k hold with hl | hs | hd
        · exact Or.inl hl
        · exact Or.inr (Or.inl hs)
        · exact Or.inr (Or.inr (List.mem_append_right _ ((hrest k).mpr hd)))
      · exact Or.inr (Or.inr (List.mem_append_left _ hold))
    · refine absurd ?_ (hnew k o)
      rw [hmid]
      exact List.mem_append_right _ List.mem_cons_self
  between before k o mid k' o' after htrace := by
    rw [← List.cons_append, ← List.append_assoc] at htrace
    rcases hshows.place htrace with ⟨m, rest, hmid, -, -⟩ | ⟨m, hmid, -⟩
    · rw [List.append_assoc, List.cons_append] at hmid
      exact h.between before k o mid k' o' m hmid
    · refine absurd ?_ (hnew k' o')
      rw [hmid]
      exact List.mem_append_right _ List.mem_cons_self

/-- The ledger after an event that shows nothing, while the sessions are as they were. -/
theorem Ledger.unshown (h : s.Ledger) (hshows : Shows s s' [])
    (hgeneration : s.generation ≤ s'.generation) (hstopping : s'.stopping = s.stopping)
    (hstatus : s.status = .connected → s'.status = .connected ∧ s'.generation = s.generation)
    (hunended : s'.status ≠ .disconnected ∨ s'.attempts s'.generation ≠ .finished →
      .disconnected s'.generation ∉ s.trace) : s'.Ledger := by
  refine h.shows hshows (fun _ _ => List.not_mem_nil) (fun _ => Nat.zero_le 1) hgeneration
    (fun k hk => by cases hk) (fun hs => ⟨hunended hs, List.not_mem_nil⟩) ?_ ?_
  · intro k hk
    exact h.torn k (hstopping ▸ hk)
  · rintro k (⟨hs, hk⟩ | hs)
    · exact Or.inl ⟨(hstatus hs).1, (hstatus hs).2.trans hk⟩
    · exact Or.inr (Or.inl (hstopping.trans hs))

theorem Ledger.quiet (h : s.Ledger) (q : Quiet s s') : s'.Ledger := by
  refine h.unshown q.shows (Nat.le_of_eq q.generation.symm) q.stopping
    (fun hs => ⟨q.status.trans hs, q.generation⟩) fun hs => ?_
  rw [q.status, q.generation] at hs
  rw [q.generation]
  exact h.unended (hs.imp_right fun hover ho => hover (q.finished ho))

/-! ### Going down -/

theorem Ledger.handleClose (h : s.Ledger) (ho : s.Ordered) (options : Options) :
    (s.handleClose options).Ledger := by
  have hshows := handleClose_shows (s := s) options
  have hstopping := stopping_handleClose (s := s) options
  have hgeneration := generation_handleClose (s := s) options
  have hstatus := status_handleClose (s := s) options
  by_cases hconnected : s.status = .connected
  · rw [if_pos hconnected] at hshows
    refine h.shows hshows ?_ ?_ (Nat.le_of_eq hgeneration.symm) ?_ ?_ ?_ ?_
    · intro k o hmem
      cases List.mem_singleton.mp hmem
    · intro k
      exact List.count_le_length
    · intro k hk
      obtain rfl := Output.disconnected.inj (List.mem_singleton.mp hk)
      refine ⟨Nat.le_of_eq hgeneration.symm, h.unended (Or.inl (by simp [hconnected])), ?_⟩
      intro hs
      exact Nat.lt_irrefl _ (ho.past _ (hstopping.symm.trans hs))
    · intro hs
      rw [hgeneration] at hs
      rcases hs with hs | hs
      · exact absurd hstatus hs
      · exact absurd ((over_handleClose_iff options _).mpr (ho.settled hconnected)) hs
    · intro k hs
      exact h.torn k (hstopping.symm.trans hs)
    · rintro k (⟨-, rfl⟩ | hs)
      · exact Or.inr (Or.inr List.mem_cons_self)
      · exact Or.inr (Or.inl (hstopping.trans hs))
  · rw [if_neg hconnected] at hshows
    refine h.unshown hshows (Nat.le_of_eq hgeneration.symm) hstopping
      (fun hs => absurd hs hconnected) fun hs => ?_
    rw [hgeneration] at hs ⊢
    rcases hs with hs | hs
    · exact absurd hstatus hs
    · exact h.unended (Or.inr fun hover => hs ((over_handleClose_iff options _).mpr hover))

/-- An attempt that fails, its end not announced before if it announces it. -/
theorem Ledger.fails (h : s.Ledger) (hw : s.WellFormed) (options : Options) {k : Nat}
    (htorn : (s.attempts k).isFailed → s.status ≠ .connected → s.reconnecting = true → ¬s.Torn k) :
    (s.fails options k).Ledger := by
  rw [Client.fails]
  cases hk : s.attempts k with
  | failed cause =>
    simp only
    have hshows := failConnection_shows (s := s) options k
    have hstopping := stopping_failConnection (s := s) options k
    have hgeneration := generation_failConnection (s := s) options k
    by_cases hconnected : s.status = .connected
    · rw [Client.failConnection, if_pos hconnected]
      exact h.unshown (shows_nil rfl) (Nat.le_refl _) rfl (fun hs => ⟨hs, rfl⟩)
        fun _ => h.unended (Or.inl (by simp [hconnected]))
    · have hstatus := status_failConnection options k hconnected
      -- The current attempt is another one, or is over now.
      have hunended : ((s.failConnection options k).setStage k .finished).status ≠ .disconnected ∨
          ((s.failConnection options k).setStage k .finished).attempts
            ((s.failConnection options k).setStage k .finished).generation ≠ .finished →
          .disconnected s.generation ∉ s.trace ∧ s.generation ≠ k := by
        intro hs
        rw [attempts_setStage, setStage, hgeneration] at hs
        rcases hs with hs | hs
        · exact absurd hstatus hs
        · by_cases heq : s.generation = k
          · rw [if_pos heq] at hs
            exact absurd rfl hs
          · rw [if_neg heq] at hs
            refine ⟨h.unended (Or.inr fun hover => hs ?_), heq⟩
            exact (over_failConnection_iff options k _).mpr hover
      by_cases hreconnecting : s.reconnecting = true
      · rw [if_pos ⟨hconnected, hreconnecting⟩] at hshows
        have hshows' : Shows s ((s.failConnection options k).setStage k .finished) _ := hshows
        have hnot := htorn (by rw [hk]; rfl) hconnected hreconnecting
        refine h.shows hshows' ?_ ?_
          (Nat.le_of_eq hgeneration.symm) ?_ ?_ ?_ ?_
        · intro j o hmem
          cases List.mem_singleton.mp hmem
        · intro j
          exact List.count_le_length
        · intro j hj
          obtain rfl := Output.disconnected.inj (List.mem_singleton.mp hj)
          refine ⟨?_, fun hmem => hnot (Or.inl hmem), fun hs => hnot (Or.inr ?_)⟩
          · rw [setStage, hgeneration]
            exact hw.attempts j (by simp [hk])
          · exact hstopping.symm.trans hs
        · intro hs
          obtain ⟨hnone, hne⟩ := hunended hs
          rw [setStage, hgeneration]
          refine ⟨hnone, fun hmem => hne ?_⟩
          exact Output.disconnected.inj (List.mem_singleton.mp hmem)
        · intro j hs
          exact h.torn j (hstopping.symm.trans hs)
        · rintro j (⟨hs, -⟩ | hs)
          · exact absurd hs hconnected
          · exact Or.inr (Or.inl (hstopping.trans hs))
      · rw [if_neg fun hs => hreconnecting hs.2] at hshows
        have hshows' : Shows s ((s.failConnection options k).setStage k .finished) _ := hshows
        refine h.unshown hshows'
          (Nat.le_of_eq hgeneration.symm) hstopping (fun hs => absurd hs hconnected) fun hs => ?_
        rw [setStage, hgeneration]
        exact (hunended hs).1
  | finished => exact h
  | opening => exact h
  | discarding cause => exact h
  | setup rest => exact h
  | awaiting call swallowed rest => exact h

/-! ### Connecting and disconnecting -/

theorem Ledger.connect (h : s.Ledger) : s.connect.Ledger := by
  rw [Client.connect]
  split
  · rename_i hfree
    refine h.unshown (shows_nil rfl) (Nat.le_succ _) rfl
      (fun hs => by cases hfree.2.symm.trans hs) fun _ hk => ?_
    exact Nat.not_succ_le_self _ (h.fresh _ hk)
  · exact h

theorem Ledger.disconnect (h : s.Ledger) (hw : s.WellFormed) (options : Options) :
    (s.disconnect options).Ledger := by
  have hstopping := stopping_disconnect (s := s) options
  have hgeneration : (s.disconnect options).generation = s.generation + 1 := by
    rw [Client.disconnect]
    split
    · rfl
    · cases s.transport with
      | none => exact (fail_quiet _).generation
      | some t => exact (fail_quiet _).generation
  refine h.shows (disconnect_shows options) (fun _ _ => List.not_mem_nil)
    (fun _ => Nat.zero_le 1) (by omega) (fun k hk => by cases hk) ?_ ?_ ?_
  · intro _
    rw [hgeneration]
    exact ⟨fun hk => Nat.not_succ_le_self _ (h.fresh _ hk), List.not_mem_nil⟩
  · intro k hs
    rw [hstopping] at hs
    split at hs
    · exact h.torn k hs
    · rename_i hgoing
      rw [not_or] at hgoing
      rw [← Option.some.inj hs]
      exact h.unended (Or.inl hgoing.2)
  · rintro k (⟨hs, rfl⟩ | hs)
    · have hgoing : ¬(s.stopping ≠ none ∨ s.status = .disconnected) := by
        rintro (hp | hp)
        · cases (hw.stopping hp).1.symm.trans hs
        · cases hp.symm.trans hs
      rw [hstopping, if_neg hgoing]
      exact Or.inr (Or.inl rfl)
    · rw [hstopping, if_pos (Or.inl (by simp [hs]))]
      exact Or.inr (Or.inl hs)

theorem Ledger.tornDown (h : s.Ledger) (ho : s.Ordered) : s.tornDown.Ledger := by
  rw [Client.tornDown]
  split
  · exact h
  · rename_i k hk
    have hstopped := ho.stopped (ho.stopping (by simp [hk]))
    refine h.shows (l := [.disconnected k]) (shows_of_trace rfl) ?_ ?_ (Nat.le_refl _) ?_ ?_ ?_ ?_
    · intro j o hmem
      cases List.mem_singleton.mp hmem
    · intro j
      exact List.count_le_length
    · intro j hj
      obtain rfl := Output.disconnected.inj (List.mem_singleton.mp hj)
      exact ⟨Nat.le_of_lt (ho.past j hk), h.torn j hk, fun hs => by cases hs⟩
    · rintro (hs | hs)
      · exact absurd hstopped.1 hs
      · exact absurd hstopped.2 hs
    · intro j hs
      cases hs
    · rintro j (hs | hs)
      · exact Or.inl hs
      · rw [hk, Option.some.injEq] at hs
        exact Or.inr (Or.inr (hs ▸ List.mem_cons_self))

/-! ### The attempt -/

theorem Ledger.setStage (h : s.Ledger) {k : Nat} {stage : Stage} (hk : s.attempts k ≠ .finished) :
    (s.setStage k stage).Ledger := by
  refine h.unshown (shows_nil rfl) (Nat.le_refl _) rfl (fun hs => ⟨hs, rfl⟩) fun hs => ?_
  rw [attempts_setStage] at hs
  rcases hs with hs | hs
  · exact h.unended (Or.inl hs)
  · apply h.unended
    right
    by_cases heq : s.generation = k
    · exact heq ▸ hk
    · rw [Client.setStage, if_neg heq] at hs
      exact hs

theorem Ledger.opened (h : s.Ledger) (options : Options) (k : Nat) (notifications alive : Bool) :
    (s.opened options k notifications alive).Ledger := by
  rw [Client.opened]
  split
  · rename_i hopening
    have hk : s.attempts k ≠ .finished := by simp [hopening]
    have hset : ∀ stage, (s.setStage k stage).Ledger := fun stage => h.setStage hk
    dsimp only
    split
    · have := hset (.discarding .notConnected)
      exact ⟨this.fresh, this.unended, this.torn, this.once, this.session, this.between⟩
    · split
      · have := hset (.discarding .eventsUnsupported)
        exact ⟨this.fresh, this.unended, this.torn, this.once, this.session, this.between⟩
      · have := hset (.setup (setupCommands options notifications))
        exact ⟨this.fresh, this.unended, this.torn, this.once, this.session, this.between⟩
  · exact h

/-- The last of the current attempt's setup. -/
theorem Ledger.goesOn_last (h : s.Ledger) (ho : s.Ordered)
    (hsetup : s.attempts s.generation = .setup []) : (s.goesOn s.generation).Ledger := by
  have hnone : .disconnected s.generation ∉ s.trace := h.unended (Or.inr (by simp [hsetup]))
  -- No session stands or is being torn down while an attempt is under way.
  have hpast : ∀ k, ¬((s.status = .connected ∧ s.generation = k) ∨ s.stopping = some k) := by
    rintro k (⟨hs, -⟩ | hs)
    · cases (ho.settled hs).symm.trans hsetup
    · cases (ho.stopped (ho.stopping (by simp [hs]))).2.symm.trans hsetup
  have hold : ∀ before k o after, s.trace = before ++ .connected k o :: after →
      .disconnected k ∈ after := by
    intro before k o after htrace
    rcases h.session before k o after htrace with hs | hs | hd
    · exact absurd (Or.inl hs) (hpast k)
    · exact absurd (Or.inr hs) (hpast k)
    · exact hd
  have hshows : Shows s (s.goesOn s.generation) [.connected s.generation s.transport] := by
    have := goesOn_shows (s := s) s.generation
    rwa [shown, if_pos ⟨hsetup, rfl⟩] at this
  have hmem : ∀ k, .disconnected k ∈ (s.goesOn s.generation).trace ↔ .disconnected k ∈ s.trace :=
    fun k => hshows.mem_disconnected.trans (or_iff_left fun hk => by
      cases List.mem_singleton.mp hk)
  have hgeneration : (s.goesOn s.generation).generation = s.generation := by
    rw [Client.goesOn, hsetup]
    simp only [if_true, Client.setStage]
  have hstopping : (s.goesOn s.generation).stopping = s.stopping := by
    rw [Client.goesOn, hsetup]
    simp only [if_true, Client.setStage]
  have hstatus : (s.goesOn s.generation).status = .connected := by
    rw [Client.goesOn, hsetup]
    simp only [if_true, Client.setStage]
  exact
    { fresh := fun k hk => hgeneration.symm ▸ h.fresh k ((hmem k).mp hk)
      unended := fun _ hk => hnone (hgeneration ▸ (hmem _).mp hk)
      torn := fun k hs hk => h.torn k (hstopping.symm.trans hs) ((hmem k).mp hk)
      once := by
        intro k
        rw [hshows.count_disconnected]
        simpa using h.once k
      session := by
        intro before k o after htrace
        rcases hshows.place htrace with ⟨mid, rest, hmid, rfl, -⟩ | ⟨mid, hmid, -⟩
        · exact Or.inr (Or.inr (List.mem_append_left _ (hold before k o mid hmid)))
        · cases mid with
          | nil =>
            obtain ⟨rfl, -⟩ := Output.connected.inj (List.cons.inj hmid).1
            exact Or.inl ⟨hstatus, hgeneration⟩
          | cons a mid =>
            exact absurd (List.cons.inj hmid).2.symm
              (List.append_ne_nil_of_right_ne_nil _ (List.cons_ne_nil _ _))
      between := by
        intro before k o mid k' o' after htrace
        rw [← List.cons_append, ← List.append_assoc] at htrace
        rcases hshows.place htrace with ⟨m, rest, hmid, -, -⟩ | ⟨m, hmid, quiet, hbefore⟩
        · rw [List.append_assoc, List.cons_append] at hmid
          exact h.between before k o mid k' o' m hmid
        · cases m with
          | nil =>
            rw [List.append_nil] at hbefore
            rcases Log.place_append hbefore.1.symm with ⟨m, hm, rfl⟩ | ⟨m, hm, -⟩
            · exact ⟨k, List.mem_append_left _ (hold before k o m hm)⟩
            · have := hbefore.2 (.connected k o)
                (hm ▸ List.mem_append_right _ List.mem_cons_self)
              cases this
          | cons a m =>
            exact absurd (List.cons.inj hmid).2.symm
              (List.append_ne_nil_of_right_ne_nil _ (List.cons_ne_nil _ _)) }

theorem Ledger.goesOn (h : s.Ledger) (ho : s.Ordered) (k : Nat) : (s.goesOn k).Ledger := by
  by_cases hsetup : s.attempts k = .setup []
  · by_cases hk : k = s.generation
    · subst hk
      exact h.goesOn_last ho hsetup
    · rw [s.goesOn_stale hsetup hk]
      exact h.setStage (by simp [hsetup])
  · exact h.quiet (s.goesOn_quiet hsetup)

/-! ### One event -/

/-- An attempt that fails, or whose setup ends, with its end announced once and no end
announced after `disconnect` has resolved. -/
def Due (s : Client) : Event → Prop
  | .fails k => (s.attempts k).isFailed = true →
      (s.status ≠ .connected → s.reconnecting = true →
        ¬s.Torn k ∧ ¬(s.stopped = true ∧ s.stopping = none)) ∧
      (s.loopWaits = some k → s.Torn k ∨ s.status ≠ .connected)
  | .goesOn k => s.attempts k = .setup [] → k ≠ s.generation → s.loopWaits = some k → s.Torn k
  | _ => True

theorem stopping_fails (options : Options) (k : Nat) :
    (s.fails options k).stopping = s.stopping := by
  rw [fails]
  split
  · exact stopping_failConnection options k
  · rfl

theorem stopping_goesOn (k : Nat) : (s.goesOn k).stopping = s.stopping := by
  rw [goesOn]
  split
  · rfl
  · split
    · rfl
    · rfl
  · rfl

/-- Only the end of the teardown stops a session from being torn down. -/
theorem stopping_step (integerOf : Str → Option Int) (options : Options) {e : Event} {k : Nat}
    (h : s.stopping = some k) (he : e ≠ .tornDown) :
    (step integerOf options s e).stopping = some k := by
  rw [← h]
  cases e with
  | connect =>
    rw [step, connect]
    split
    · rfl
    · rfl
  | disconnect => exact (stopping_disconnect options).trans (if_pos (Or.inl (by simp [h])))
  | tornDown => exact absurd rfl he
  | retry =>
    rw [step, retry, connect]
    split
    · split
      · rfl
      · rfl
    · rfl
  | loopEnds =>
    rw [step, loopEnds]
    split
    · rfl
    · rfl
  | opened j notifications alive =>
    rw [step, opened]
    split
    · dsimp only
      split
      · rfl
      · split
        · rfl
        · rfl
    · rfl
  | openFails j => exact (s.openFails_quiet j).stopping
  | discarded j => exact (s.discarded_quiet j).stopping
  | goesOn j => exact stopping_goesOn j
  | fails j => exact stopping_fails options j
  | exec line => exact (s.exec_quiet line).stopping
  | turn aborted => exact (s.turn_quiet aborted).stopping
  | write => exact s.write_quiet.stopping
  | sendFails => exact s.sendFails_quiet.stopping
  | gaveUp sending => exact (s.gaveUp_quiet sending).stopping
  | lateSendFails t => exact (s.lateSendFails_quiet t).stopping
  | graceEnds => exact s.graceEnds_quiet.stopping
  | line t text => exact (s.line_quiet options integerOf t text).stopping
  | closes t =>
    rw [step, closes]
    split
    · dsimp only
      split
      · exact stopping_handleClose options
      · rfl
    · rfl

theorem Torn.step (integerOf : Str → Option Int) (options : Options) {e : Event} {k : Nat}
    (h : s.Torn k) (he : e ≠ .tornDown) : (step integerOf options s e).Torn k := by
  rcases h with hmem | hs
  · exact Or.inl ((step_shows integerOf options s e).mem_disconnected.mpr (Or.inl hmem))
  · exact Or.inr (stopping_step integerOf options hs he)

/-- A session drops, and the reconnect loop's attempt waits for its `version` when
`disconnect` is called. -/
def interrupted : List Event :=
  [.connect, .opened 1 true true, .goesOn 1, .turn false, .write, .line 0 (.of "version=3.13.7"),
    .line 0 (.of "error id=0 msg=ok"), .graceEnds, .goesOn 1, .turn false, .write,
    .line 0 (.of "client_id=5"), .line 0 (.of "error id=0 msg=ok"), .graceEnds, .goesOn 1,
    .closes 0, .retry, .opened 2 true true, .goesOn 2, .turn false, .write, .disconnect]

end Client

end Teamspeak.Query
