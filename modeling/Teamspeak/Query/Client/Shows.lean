import Teamspeak.Lib.Log
import Teamspeak.Query.Client.WellFormed

/-!
# What each event shows

* `shown`: the `connected` or `disconnected` that an event shows, if any.
* `step_shows`: an event shows that, and before it only what is of no session's beginning
  or end.
-/

namespace Teamspeak.Query

def Stage.isFailed : Stage → Bool
  | .failed _ => true
  | _ => false

namespace Client

/-- The `connected` or `disconnected` an event shows. -/
def shown (s : Client) : Event → List Output
  | .tornDown => s.stopping.toList.map .disconnected
  | .goesOn k =>
    if s.attempts k = .setup [] ∧ k = s.generation then [.connected k s.transport] else []
  | .fails k =>
    if (s.attempts k).isFailed ∧ s.status ≠ .connected ∧ s.reconnecting then [.disconnected k]
    else []
  | .closes t =>
    if t < s.nextTransport ∧ t ∉ s.ended ∧ t ∈ s.wired ∧ s.status = .connected then
      [.disconnected s.generation]
    else []
  | _ => []

/-- The trace of `s'` is that of `s`, then what is quiet, then `l`. -/
def Shows (s s' : Client) (l : List Output) : Prop :=
  ∃ quiet, s'.trace = s.trace ++ quiet ++ l ∧ ∀ o ∈ quiet, o.attempt? = none

variable {s s' : Client}

theorem Quiet.shows (q : Quiet s s') : Shows s s' [] := by
  obtain ⟨quiet, htrace, hquiet⟩ := q.trace
  exact ⟨quiet, by rw [htrace, List.append_nil], hquiet⟩

theorem shows_of_trace {l : List Output} (h : s'.trace = s.trace ++ l) : Shows s s' l :=
  ⟨[], by rw [h, List.append_nil], by simp⟩

theorem shows_nil (h : s'.trace = s.trace) : Shows s s' [] := shows_of_trace (by simp [h])

theorem shows_fail (p : Client) (h : p.trace = s.trace) : Shows s p.fail [] := by
  obtain ⟨quiet, htrace, hquiet⟩ := p.fail_quiet.shows
  exact ⟨quiet, h ▸ htrace, hquiet⟩

theorem Shows.announce (h : Shows s s' []) (k : Nat) :
    Shows s (s'.announceDisconnected k) [.disconnected k] := by
  obtain ⟨quiet, htrace, hquiet⟩ := h
  exact ⟨quiet, by rw [announceDisconnected, htrace, List.append_nil], hquiet⟩

theorem handleClose_shows (options : Options) :
    Shows s (s.handleClose options)
      (if s.status = .connected then [.disconnected s.generation] else []) := by
  have hdown := shows_fail (s := s)
    { s with transport := none, closed := true, status := .disconnected } rfl
  rw [handleClose]
  by_cases hstatus : s.status = .disconnected
  · rw [if_pos hstatus, if_neg (by simp [hstatus])]
    exact shows_nil rfl
  · rw [if_neg hstatus]
    dsimp only
    by_cases hconnected : s.status = .connected
    · rw [if_pos hconnected, if_pos hconnected]
      exact hdown.announce s.generation
    · rw [if_neg hconnected, if_neg hconnected]
      exact hdown

theorem failConnection_shows (options : Options) (k : Nat) :
    Shows s (s.failConnection options k)
      (if s.status ≠ .connected ∧ s.reconnecting then [.disconnected k] else []) := by
  have hdown := shows_fail (s := s)
    { s with transport := none, closed := true, status := .disconnected } rfl
  have hclosed : Shows s (s.transport.elim
      { s with transport := none, closed := true, status := .disconnected }.fail
      ({ s with transport := none, closed := true, status := .disconnected }.fail.closeTransport
        options)) [] := by
    cases s.transport with
    | none => exact hdown
    | some t => exact hdown
  rw [failConnection]
  by_cases hconnected : s.status = .connected
  · rw [if_pos hconnected, if_neg (by simp [hconnected])]
    exact shows_nil rfl
  · rw [if_neg hconnected]
    dsimp only
    by_cases hreconnecting : s.reconnecting = true
    · rw [if_pos hreconnecting, if_pos ⟨hconnected, hreconnecting⟩]
      exact hclosed.announce k
    · rw [if_neg hreconnecting, if_neg fun h => hreconnecting h.2]
      exact hclosed

theorem disconnect_shows (options : Options) : Shows s (s.disconnect options) [] := by
  rw [disconnect]
  split
  · exact shows_nil rfl
  · have hdown := shows_fail (s := s)
      { s with
        stopped := true, generation := s.generation + 1, status := .disconnected,
        stopping := some s.generation, transport := none, closed := true } rfl
    cases s.transport with
    | none => exact hdown
    | some t => exact hdown

theorem goesOn_shows (k : Nat) : Shows s (s.goesOn k) (s.shown (.goesOn k)) := by
  rw [shown]
  split
  · rename_i hlast
    rw [goesOn, hlast.1]
    simp only [hlast.2, if_true]
    exact shows_of_trace rfl
  · rename_i hlast
    by_cases hsetup : s.attempts k = .setup []
    · rw [s.goesOn_stale hsetup fun hk => hlast ⟨hsetup, hk⟩]
      exact shows_nil rfl
    · exact (s.goesOn_quiet hsetup).shows

theorem fails_shows (options : Options) (k : Nat) :
    Shows s (s.fails options k) (s.shown (.fails k)) := by
  have hfails := failConnection_shows (s := s) options k
  rw [shown, fails]
  cases hk : s.attempts k with
  | failed cause =>
    simp only [Stage.isFailed, true_and]
    exact hfails
  | finished => exact shows_nil rfl
  | opening => exact shows_nil rfl
  | discarding cause => exact shows_nil rfl
  | setup rest => exact shows_nil rfl
  | awaiting call swallowed rest => exact shows_nil rfl

theorem closes_shows (options : Options) (t : TransportID) :
    Shows s (s.closes options t) (s.shown (.closes t)) := by
  rw [shown, closes]
  by_cases hopen : t < s.nextTransport ∧ t ∉ s.ended
  · rw [if_pos hopen]
    dsimp only
    by_cases hwired : t ∈ s.wired
    · rw [if_pos hwired]
      simp only [hopen.1, hopen.2, hwired, not_false_eq_true, true_and]
      exact handleClose_shows (s := { s with ended := t :: s.ended }) options
    · rw [if_neg hwired, if_neg fun h => hwired h.2.2.1]
      exact shows_nil rfl
  · rw [if_neg hopen, if_neg fun h => hopen ⟨h.1, h.2.1⟩]
    exact shows_nil rfl

/-- What an event shows. -/
theorem step_shows (integerOf : Str → Option Int) (options : Options) (s : Client) (e : Event) :
    Shows s (step integerOf options s e) (s.shown e) := by
  cases e with
  | connect =>
    rw [step, connect]
    split
    · exact shows_nil rfl
    · exact shows_nil rfl
  | disconnect => exact disconnect_shows options
  | tornDown =>
    rw [step, tornDown, shown]
    cases s.stopping with
    | none => exact shows_nil rfl
    | some k => exact shows_of_trace rfl
  | retry =>
    rw [step, retry, connect]
    split
    · split
      · exact shows_nil rfl
      · exact shows_nil rfl
    · exact shows_nil rfl
  | loopEnds =>
    rw [step, loopEnds]
    split
    · exact shows_nil rfl
    · exact shows_nil rfl
  | opened k notifications alive =>
    rw [step, opened]
    split
    · dsimp only
      split
      · exact shows_nil rfl
      · split
        · exact shows_nil rfl
        · exact shows_nil rfl
    · exact shows_nil rfl
  | openFails k => exact (s.openFails_quiet k).shows
  | discarded k => exact (s.discarded_quiet k).shows
  | goesOn k => exact goesOn_shows k
  | fails k => exact fails_shows options k
  | exec line => exact (s.exec_quiet line).shows
  | turn aborted => exact (s.turn_quiet aborted).shows
  | write => exact s.write_quiet.shows
  | sendFails => exact s.sendFails_quiet.shows
  | gaveUp sending => exact (s.gaveUp_quiet sending).shows
  | lateSendFails t => exact (s.lateSendFails_quiet t).shows
  | graceEnds => exact s.graceEnds_quiet.shows
  | line t text => exact (s.line_quiet options integerOf t text).shows
  | closes t => exact closes_shows options t

/-- Only the last of the current attempt's setup shows a `connected`. -/
theorem connected_mem_shown {e : Event} {k : Nat} {o : Option TransportID}
    (h : .connected k o ∈ s.shown e) :
    e = .goesOn k ∧ s.attempts k = .setup [] ∧ k = s.generation ∧ o = s.transport := by
  cases e with
  | goesOn j =>
    rw [shown] at h
    split at h
    · rename_i hlast
      obtain ⟨rfl, rfl⟩ := Output.connected.inj (List.mem_singleton.mp h)
      exact ⟨rfl, hlast.1, hlast.2, rfl⟩
    · cases h
  | tornDown =>
    obtain ⟨j, -, hj⟩ := List.mem_map.mp h
    cases hj
  | fails j =>
    rw [shown] at h
    split at h
    · cases List.mem_singleton.mp h
    · cases h
  | closes t =>
    rw [shown] at h
    split at h
    · cases List.mem_singleton.mp h
    · cases h
  | connect => cases h
  | disconnect => cases h
  | retry => cases h
  | loopEnds => cases h
  | opened j notifications alive => cases h
  | openFails j => cases h
  | discarded j => cases h
  | exec line => cases h
  | turn aborted => cases h
  | write => cases h
  | sendFails => cases h
  | gaveUp sending => cases h
  | lateSendFails t => cases h
  | graceEnds => cases h
  | line t text => cases h

/-! ### Reading a longer trace -/

theorem Shows.mem_disconnected {l : List Output} (h : Shows s s' l) {k : Nat} :
    .disconnected k ∈ s'.trace ↔ .disconnected k ∈ s.trace ∨ .disconnected k ∈ l := by
  obtain ⟨quiet, htrace, hquiet⟩ := h
  have hnot : .disconnected k ∉ quiet := fun hmem => by cases hquiet _ hmem
  rw [htrace, List.mem_append, List.mem_append, or_iff_left hnot]

theorem Shows.count_disconnected {l : List Output} (h : Shows s s' l) (k : Nat) :
    s'.trace.count (.disconnected k) =
      s.trace.count (.disconnected k) + l.count (.disconnected k) := by
  obtain ⟨quiet, htrace, hquiet⟩ := h
  have hnot : .disconnected k ∉ quiet := fun hmem => by cases hquiet _ hmem
  rw [htrace, List.count_append, List.count_append, List.count_eq_zero_of_not_mem hnot,
    Nat.add_zero]

theorem Shows.mem_drop {l : List Output} (h : Shows s s' l) {o : Output} (ho : o.attempt? ≠ none) :
    o ∈ s'.trace.drop s.trace.length ↔ o ∈ l := by
  obtain ⟨quiet, htrace, hquiet⟩ := h
  rw [htrace, List.append_assoc, List.drop_left, List.mem_append,
    or_iff_right fun hmem => ho (hquiet o hmem)]

/-- A `connected` of a longer trace was there, with more after it now, or is shown. -/
theorem Shows.place {l before after : List Output} {k : Nat} {o : Option TransportID}
    (h : Shows s s' l) (htrace : s'.trace = before ++ .connected k o :: after) :
    (∃ mid rest, s.trace = before ++ .connected k o :: mid ∧ after = mid ++ rest ∧
      ∀ j, .disconnected j ∈ rest ↔ .disconnected j ∈ l) ∨
      ∃ mid, l = mid ++ .connected k o :: after ∧
        ∃ quiet, before = s.trace ++ quiet ++ mid ∧ ∀ o ∈ quiet, o.attempt? = none := by
  obtain ⟨quiet, heq, hquiet⟩ := h
  rw [heq, List.append_assoc] at htrace
  rcases Log.place_append htrace with ⟨mid, hmid, rfl⟩ | ⟨mid, hmid, rfl⟩
  · refine Or.inl ⟨mid, quiet ++ l, hmid, rfl, fun j => ?_⟩
    exact List.mem_append.trans (or_iff_right fun hmem => by cases hquiet _ hmem)
  · right
    rcases Log.place_append hmid with ⟨q, rfl, -⟩ | ⟨m, rfl, rfl⟩
    · have := hquiet _ (List.mem_append_right mid List.mem_cons_self)
      cases this
    · exact ⟨m, rfl, quiet, by rw [List.append_assoc], hquiet⟩

end Client

end Teamspeak.Query
