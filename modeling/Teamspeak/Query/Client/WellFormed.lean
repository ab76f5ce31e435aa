import Teamspeak.Lib.Run
import Teamspeak.Query.Client.Quiet

/-!
# What holds of a client in every run

* `WellFormed`: a command runs only over a transport that is installed; that transport is
  wired, and its attempt neither over nor given up; transports and attempts are numbered
  in the order they come; while `disconnect` waits, no attempt is the current one.
* `wellFormed_step`: one event keeps it.
-/

namespace Teamspeak.Query

namespace Client

structure WellFormed (s : Client) : Prop where
  idle : s.transport = none → s.answers.pending = none ∧ s.running = none
  installed : ∀ t, s.transport = some t → t ∈ s.wired ∧ s.status ≠ .disconnected
  wired : ∀ t ∈ s.wired, t < s.nextTransport
  ended : ∀ t ∈ s.ended, t < s.nextTransport
  attempts : ∀ k, s.attempts k ≠ .finished → k ≤ s.generation
  stopping : s.stopping ≠ none → s.status = .disconnected ∧ s.attempts s.generation = .finished

theorem wellFormed_init : ({} : Client).WellFormed where
  idle _ := ⟨rfl, rfl⟩
  installed _ h := by cases h
  wired _ h := by cases h
  ended _ h := by cases h
  attempts _ h := absurd rfl h
  stopping h := absurd rfl h

variable {s s' : Client}

theorem WellFormed.quiet (h : s.WellFormed) (q : Quiet s s') : s'.WellFormed where
  idle ht := by
    rw [q.transport] at ht
    have hdead : s.Dead := fun t h => by rw [ht] at h; cases h
    exact ⟨q.pending hdead (h.idle ht).1, q.running ht (h.idle ht).2⟩
  installed t ht := by
    rw [q.transport] at ht
    rw [q.wired, q.status]
    exact h.installed t ht
  wired t ht := by
    rw [q.wired] at ht
    rw [q.nextTransport]
    exact h.wired t ht
  ended t ht := by
    rw [q.ended] at ht
    rw [q.nextTransport]
    exact h.ended t ht
  attempts k hk := by
    rw [q.generation]
    apply h.attempts k
    intro hover
    exact hk (q.finished hover)
  stopping hstopping := by
    rw [q.stopping] at hstopping
    obtain ⟨hstatus, hover⟩ := h.stopping hstopping
    rw [q.status, q.generation]
    exact ⟨hstatus, q.finished hover⟩

/-! ### Going down -/

/-- A connection given up is well-formed, the command that ran having failed. -/
theorem wellFormed_fail (ht : s.transport = none) (hwired : ∀ t ∈ s.wired, t < s.nextTransport)
    (hended : ∀ t ∈ s.ended, t < s.nextTransport)
    (hattempts : ∀ k, s.attempts k ≠ .finished → k ≤ s.generation)
    (hstopping : s.stopping ≠ none →
      s.status = .disconnected ∧ s.attempts s.generation = .finished) : s.fail.WellFormed where
  idle _ := s.fail_idle
  installed t h := by
    rw [s.fail_quiet.transport, ht] at h
    cases h
  wired t h := by
    rw [s.fail_quiet.wired] at h
    rw [s.fail_quiet.nextTransport]
    exact hwired t h
  ended t h := by
    rw [s.fail_quiet.ended] at h
    rw [s.fail_quiet.nextTransport]
    exact hended t h
  attempts k hk := by
    rw [s.fail_quiet.generation]
    apply hattempts k
    intro hover
    exact hk (s.fail_quiet.finished hover)
  stopping h := by
    rw [s.fail_quiet.stopping] at h
    obtain ⟨hstatus, hover⟩ := hstopping h
    rw [s.fail_quiet.status, s.fail_quiet.generation]
    exact ⟨hstatus, s.fail_quiet.finished hover⟩

theorem WellFormed.closeTransport (h : s.WellFormed) (options : Options) {t : TransportID}
    (ht : t < s.nextTransport) : (s.closeTransport options t).WellFormed where
  idle := h.idle
  installed := h.installed
  wired := h.wired
  ended u hu := by
    rw [Client.closeTransport] at hu
    split at hu
    · rcases List.mem_cons.mp hu with rfl | hu
      · exact ht
      · exact h.ended u hu
    · exact h.ended u hu
  attempts := h.attempts
  stopping := h.stopping

theorem WellFormed.announceDisconnected (h : s.WellFormed) (k : Nat) :
    (s.announceDisconnected k).WellFormed :=
  ⟨h.idle, h.installed, h.wired, h.ended, h.attempts, h.stopping⟩

theorem WellFormed.setStage (h : s.WellFormed) {k : Nat} {stage : Stage}
    (hk : stage ≠ .finished → k ≤ s.generation)
    (hstage : s.stopping ≠ none → k = s.generation → stage = .finished) :
    (s.setStage k stage).WellFormed where
  idle := h.idle
  installed := h.installed
  wired := h.wired
  ended := h.ended
  attempts j hj := by
    rw [attempts_setStage] at hj
    by_cases hjk : j = k
    · rw [if_pos hjk] at hj
      exact hjk ▸ hk hj
    · rw [if_neg hjk] at hj
      exact h.attempts j hj
  stopping hstopping := by
    obtain ⟨hstatus, hover⟩ := h.stopping hstopping
    refine ⟨hstatus, ?_⟩
    rw [attempts_setStage]
    split
    · rename_i hk
      exact hstage hstopping hk.symm
    · exact hover

theorem WellFormed.handleClose (h : s.WellFormed) (options : Options) :
    (s.handleClose options).WellFormed := by
  have hdown := wellFormed_fail
    (s := { s with transport := none, closed := true, status := .disconnected }) rfl h.wired
    h.ended h.attempts fun hs => ⟨rfl, (h.stopping hs).2⟩
  rw [Client.handleClose]
  split
  · exact h
  · split
    · have := hdown.announceDisconnected s.generation
      exact ⟨this.idle, this.installed, this.wired, this.ended, this.attempts, this.stopping⟩
    · exact hdown

theorem WellFormed.failConnection (h : s.WellFormed) (options : Options) (k : Nat) :
    (s.failConnection options k).WellFormed := by
  have hdown := wellFormed_fail
    (s := { s with transport := none, closed := true, status := .disconnected }) rfl h.wired
    h.ended h.attempts fun hs => ⟨rfl, (h.stopping hs).2⟩
  rw [Client.failConnection]
  split
  · exact h
  · cases ht : s.transport with
    | none =>
      simp only [Option.elim_none]
      split
      · exact hdown.announceDisconnected k
      · exact hdown
    | some t =>
      have hclosed := hdown.closeTransport options (t := t) (by
        rw [(fail_quiet _).nextTransport]
        exact h.wired t (h.installed t ht).1)
      simp only [Option.elim_some]
      split
      · exact hclosed.announceDisconnected k
      · exact hclosed

theorem WellFormed.disconnect (h : s.WellFormed) (options : Options) :
    (s.disconnect options).WellFormed := by
  have hfresh : s.attempts (s.generation + 1) = .finished := by
    by_contra hover
    exact absurd (h.attempts _ hover) (by omega)
  have hattempts : ∀ k, s.attempts k ≠ .finished → k ≤ s.generation + 1 := fun k hk =>
    Nat.le_succ_of_le (h.attempts k hk)
  rw [Client.disconnect]
  split
  · exact
      { idle := h.idle
        installed := h.installed
        wired := h.wired
        ended := h.ended
        attempts := hattempts
        stopping := fun hs => ⟨(h.stopping hs).1, hfresh⟩ }
  · have hdown := wellFormed_fail
      (s := { s with
        stopped := true, generation := s.generation + 1, status := .disconnected,
        stopping := some s.generation, transport := none, closed := true })
      rfl h.wired h.ended hattempts fun _ => ⟨rfl, hfresh⟩
    cases ht : s.transport with
    | none => exact hdown
    | some t =>
      apply hdown.closeTransport options
      rw [(fail_quiet _).nextTransport]
      exact h.wired t (h.installed t ht).1

/-! ### What going down leaves -/

theorem status_handleClose (options : Options) : (s.handleClose options).status = .disconnected := by
  rw [handleClose]
  split
  · assumption
  · split
    · exact (fail_quiet _).status
    · exact (fail_quiet _).status

theorem status_failConnection (options : Options) (k : Nat) (h : s.status ≠ .connected) :
    (s.failConnection options k).status = .disconnected := by
  rw [failConnection, if_neg h]
  cases s.transport with
  | none =>
    simp only [Option.elim_none]
    split
    · exact (fail_quiet _).status
    · exact (fail_quiet _).status
  | some t =>
    simp only [Option.elim_some]
    split
    · exact (fail_quiet _).status
    · exact (fail_quiet _).status

theorem status_disconnect (h : s.WellFormed) (options : Options) :
    (s.disconnect options).status = .disconnected := by
  rw [Client.disconnect]
  split
  · rename_i hdone
    rcases hdone with hstopping | hstatus
    · exact (h.stopping hstopping).1
    · exact hstatus
  · cases s.transport with
    | none => exact (fail_quiet _).status
    | some t => exact (fail_quiet _).status

theorem stopping_handleClose (options : Options) : (s.handleClose options).stopping = s.stopping := by
  rw [handleClose]
  split
  · rfl
  · split
    · exact (fail_quiet _).stopping
    · exact (fail_quiet _).stopping

theorem stopping_failConnection (options : Options) (k : Nat) :
    (s.failConnection options k).stopping = s.stopping := by
  rw [failConnection]
  split
  · rfl
  · cases s.transport with
    | none =>
      simp only [Option.elim_none]
      split
      · exact (fail_quiet _).stopping
      · exact (fail_quiet _).stopping
    | some t =>
      simp only [Option.elim_some]
      split
      · exact (fail_quiet _).stopping
      · exact (fail_quiet _).stopping

theorem stopping_disconnect (options : Options) :
    (s.disconnect options).stopping =
      if s.stopping ≠ none ∨ s.status = .disconnected then s.stopping else some s.generation := by
  rw [disconnect]
  split
  · rfl
  · cases s.transport with
    | none => exact (fail_quiet _).stopping
    | some t => exact (fail_quiet _).stopping

theorem generation_handleClose (options : Options) :
    (s.handleClose options).generation = s.generation := by
  rw [handleClose]
  split
  · rfl
  · split
    · exact (fail_quiet _).generation
    · exact (fail_quiet _).generation

theorem generation_failConnection (options : Options) (k : Nat) :
    (s.failConnection options k).generation = s.generation := by
  rw [failConnection]
  split
  · rfl
  · cases s.transport with
    | none =>
      simp only [Option.elim_none]
      split
      · exact (fail_quiet _).generation
      · exact (fail_quiet _).generation
    | some t =>
      simp only [Option.elim_some]
      split
      · exact (fail_quiet _).generation
      · exact (fail_quiet _).generation

theorem over_handleClose_iff (options : Options) (k : Nat) :
    (s.handleClose options).attempts k = .finished ↔ s.attempts k = .finished := by
  have hdown := (fail_quiet
    { s with transport := none, closed := true, status := .disconnected }).finished_iff k
  rw [handleClose]
  split
  · exact Iff.rfl
  · split
    · exact hdown
    · exact hdown

theorem over_failConnection_iff (options : Options) (j k : Nat) :
    (s.failConnection options j).attempts k = .finished ↔ s.attempts k = .finished := by
  have hdown := (fail_quiet
    { s with transport := none, closed := true, status := .disconnected }).finished_iff k
  rw [failConnection]
  split
  · exact Iff.rfl
  · cases s.transport with
    | none =>
      simp only [Option.elim_none]
      split
      · exact hdown
      · exact hdown
    | some t =>
      simp only [Option.elim_some]
      split
      · exact hdown
      · exact hdown

theorem WellFormed.connect (h : s.WellFormed) : s.connect.WellFormed := by
  rw [Client.connect]
  split
  · rename_i hfree
    refine WellFormed.setStage ?_ (fun _ => Nat.le_refl _) fun hs => absurd hfree.1 hs
    exact
      { idle := h.idle
        installed := fun t ht => absurd hfree.2 (h.installed t ht).2
        wired := h.wired
        ended := h.ended
        attempts := fun k hk => Nat.le_succ_of_le (h.attempts k hk)
        stopping := fun hs => absurd hfree.1 hs }
  · exact h

theorem WellFormed.opened (h : s.WellFormed) (options : Options) (k : Nat)
    (notifications alive : Bool) : (s.opened options k notifications alive).WellFormed := by
  rw [Client.opened]
  split
  · rename_i hopening
    have hk : k ≤ s.generation := h.attempts k (by simp [hopening])
    have hstopping : s.stopping ≠ none → k ≠ s.generation := by
      intro hs heq
      rw [heq, (h.stopping hs).2] at hopening
      cases hopening
    have hnext : WellFormed
        { s with
          nextTransport := s.nextTransport + 1
          ended := if alive then s.ended else s.nextTransport :: s.ended } :=
      { idle := h.idle
        installed := h.installed
        wired := fun t ht => Nat.lt_succ_of_lt (h.wired t ht)
        ended := by
          intro t ht
          cases alive with
          | true => exact Nat.lt_succ_of_lt (h.ended t ht)
          | false =>
            rcases List.mem_cons.mp ht with rfl | ht
            · exact Nat.lt_succ_self _
            · exact Nat.lt_succ_of_lt (h.ended t ht)
        attempts := h.attempts
        stopping := h.stopping }
    have hclosed := (hnext.closeTransport options (t := s.nextTransport) (Nat.lt_succ_self _))
    dsimp only
    split
    · exact hclosed.setStage (fun _ => hk) fun hs heq => absurd heq (hstopping hs)
    · rename_i hcurrent
      split
      · exact hclosed.setStage (fun _ => hk) fun hs heq => absurd heq (hstopping hs)
      · refine WellFormed.setStage ?_ (fun _ => hk) fun hs heq => absurd heq (hstopping hs)
        exact
          { idle := fun ht => by cases ht
            installed := by
              intro t ht
              rw [Option.some.injEq] at ht
              refine ⟨ht ▸ List.mem_cons_self, fun hd => hcurrent (Or.inr ?_)⟩
              exact fun hc => by cases hc.symm.trans hd
            wired := by
              intro t ht
              rcases List.mem_cons.mp ht with rfl | ht
              · exact Nat.lt_succ_self _
              · exact Nat.lt_succ_of_lt (h.wired t ht)
            ended := hnext.ended
            attempts := h.attempts
            stopping := h.stopping }
  · exact h

/-- The last of the current attempt's setup. -/
theorem WellFormed.goesOn_last (h : s.WellFormed) (hsetup : s.attempts s.generation = .setup []) :
    (s.goesOn s.generation).WellFormed := by
  have hstopping : s.stopping = none := by
    by_contra hs
    rw [(h.stopping hs).2] at hsetup
    cases hsetup
  rw [Client.goesOn, hsetup]
  simp only [if_true]
  refine WellFormed.setStage ?_ (fun hover => absurd rfl hover) fun _ _ => rfl
  exact
    { idle := h.idle
      installed := fun t ht => ⟨(h.installed t ht).1, fun hc => by cases hc⟩
      wired := h.wired
      ended := h.ended
      attempts := h.attempts
      stopping := fun hs => absurd hstopping hs }

theorem WellFormed.goesOn (h : s.WellFormed) (k : Nat) : (s.goesOn k).WellFormed := by
  by_cases hsetup : s.attempts k = .setup []
  · by_cases hk : k = s.generation
    · subst hk
      exact h.goesOn_last hsetup
    · rw [s.goesOn_stale hsetup hk]
      exact h.setStage (fun hover => absurd rfl hover) fun _ _ => rfl
  · exact h.quiet (s.goesOn_quiet hsetup)

theorem WellFormed.fails (h : s.WellFormed) (options : Options) (k : Nat) :
    (s.fails options k).WellFormed := by
  rw [Client.fails]
  split
  · exact (h.failConnection options k).setStage (fun hover => absurd rfl hover) fun _ _ => rfl
  · exact h

theorem WellFormed.closes (h : s.WellFormed) (options : Options) (t : TransportID) :
    (s.closes options t).WellFormed := by
  rw [Client.closes]
  split
  · rename_i hopen
    have hended : WellFormed { s with ended := t :: s.ended } :=
      { idle := h.idle
        installed := h.installed
        wired := h.wired
        ended := by
          intro u hu
          rcases List.mem_cons.mp hu with rfl | hu
          · exact hopen.1
          · exact h.ended u hu
        attempts := h.attempts
        stopping := h.stopping }
    dsimp only
    split
    · exact hended.handleClose options
    · exact hended
  · exact h

/-- One event leaves a well-formed client. -/
theorem wellFormed_step (integerOf : Str → Option Int) (options : Options) (s : Client)
    (e : Event) (h : s.WellFormed) : (step integerOf options s e).WellFormed := by
  cases e with
  | connect => exact h.connect
  | disconnect => exact h.disconnect options
  | tornDown =>
    rw [step, tornDown]
    split
    · exact h
    · exact
        { idle := h.idle
          installed := h.installed
          wired := h.wired
          ended := h.ended
          attempts := h.attempts
          stopping := fun hs => absurd rfl hs }
  | retry =>
    rw [step, retry]
    split
    · have := h.connect
      exact ⟨this.idle, this.installed, this.wired, this.ended, this.attempts, this.stopping⟩
    · exact h
  | loopEnds =>
    rw [step, loopEnds]
    split
    · exact ⟨h.idle, h.installed, h.wired, h.ended, h.attempts, h.stopping⟩
    · exact h
  | opened k notifications alive => exact h.opened options k notifications alive
  | openFails k => exact h.quiet (s.openFails_quiet k)
  | discarded k => exact h.quiet (s.discarded_quiet k)
  | goesOn k => exact h.goesOn k
  | fails k => exact h.fails options k
  | exec line => exact h.quiet (s.exec_quiet line)
  | turn aborted => exact h.quiet (s.turn_quiet aborted)
  | write => exact h.quiet s.write_quiet
  | sendFails => exact h.quiet s.sendFails_quiet
  | gaveUp sending => exact h.quiet (s.gaveUp_quiet sending)
  | lateSendFails t => exact h.quiet (s.lateSendFails_quiet t)
  | graceEnds => exact h.quiet s.graceEnds_quiet
  | line t text => exact h.quiet (s.line_quiet options integerOf t text)
  | closes t => exact h.closes options t

/-- Every run leaves a well-formed client. -/
theorem wellFormed_run (integerOf : Str → Option Int) (options : Options) (es : List Event) :
    (run (step integerOf options) {} es).WellFormed :=
  run_invariant (wellFormed_step integerOf options) es wellFormed_init

end Client

end Teamspeak.Query
