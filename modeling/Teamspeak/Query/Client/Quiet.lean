import Teamspeak.Query.Answers.Lines
import Teamspeak.Query.Client

/-!
# Events that leave the connection as it is

Most events concern the commands in line, or where one attempt stands.

* `Stage.Next`: where an attempt can stand after such an event.
* `Quiet s s'`: the step from `s` to `s'` leaves the connection as it is, puts nothing on
  the wire of a transport that has ended, and shows neither a `connected` nor a
  `disconnected`.
* `exec_quiet`, …, `line_quiet`: the events that are quiet in every state.
-/

namespace Teamspeak.Query

/-- The attempt whose `connected` or `disconnected` an output is. -/
def Output.attempt? : Output → Option Nat
  | .connected k _ => some k
  | .disconnected k => some k
  | _ => none

/-! ### Stages -/

/-- Where an attempt can stand next.  It goes on only if an answer came, or its command is
one to do without. -/
inductive Stage.Next (answered : Prop) : Stage → Stage → Prop
  | same (stage : Stage) : Next answered stage stage
  | openFails : Next answered .opening (.failed .openFailed)
  | discarded (cause : Cause) : Next answered (.discarding cause) (.failed cause)
  | asks (cmd : SetupCommand) (rest : List SetupCommand) (call : Nat) :
      Next answered (.setup (cmd :: rest)) (.awaiting call cmd.swallowed rest)
  | goesOn {swallowed : Bool} (h : answered ∨ swallowed = true) (call : Nat)
      (rest : List SetupCommand) :
      Next answered (.awaiting call swallowed rest) (.setup rest)
  | fails (call : Nat) (rest : List SetupCommand) (cause : Cause) :
      Next answered (.awaiting call false rest) (.failed cause)

theorem Stage.Next.finished_iff {answered : Prop} {a b : Stage} (h : Stage.Next answered a b) :
    b = .finished ↔ a = .finished := by
  cases h with
  | same => exact Iff.rfl
  | openFails => simp
  | discarded => simp
  | asks => simp
  | goesOn => simp
  | fails => simp

/-- Hearing that a call settled is a next stage, if it did not settle without an answer. -/
theorem Stage.next_hear {answered : Prop} {result : Result}
    (h : answered ∨ ∃ cause, result = .error cause) (call : Nat) (stage : Stage) :
    Stage.Next answered stage (stage.hear call result) := by
  cases stage with
  | awaiting own swallowed rest =>
    simp only [Stage.hear]
    by_cases hown : own = call
    · rw [if_pos hown]
      cases result with
      | ok rows =>
        have hanswered : answered := by
          rcases h with h | ⟨cause, hc⟩
          · exact h
          · cases hc
        exact .goesOn (Or.inl hanswered) own rest
      | error cause =>
        cases swallowed with
        | false => exact .fails own rest cause
        | true => exact .goesOn (Or.inr rfl) own rest
    · rw [if_neg hown]
      exact .same _
  | finished => exact .same _
  | opening => exact .same _
  | discarding cause => exact .same _
  | setup rest => exact .same _
  | failed cause => exact .same _

/-! ### Quiet steps -/

namespace Client

/-- The transport, if there is one, has ended. -/
def Dead (s : Client) : Prop := ∀ t, s.transport = some t → t ∈ s.ended

structure Quiet (s s' : Client) : Prop where
  connection : s'.toConnection = s.toConnection
  trace : ∃ out, s'.trace = s.trace ++ out ∧ ∀ o ∈ out, o.attempt? = none
  stages : ∀ k, (s.attempts k).Next (s.answers.pending ≠ none) (s'.attempts k)
  pending : s.Dead → s.answers.pending = none → s'.answers.pending = none
  running : s.transport = none → s.running = none → s'.running = none

namespace Quiet

variable {s s' : Client}

theorem refl (s : Client) : Quiet s s where
  connection := rfl
  trace := ⟨[], by simp⟩
  stages k := .same _
  pending _ h := h
  running _ h := h

theorem status (h : Quiet s s') : s'.status = s.status :=
  congrArg Connection.status h.connection

theorem transport (h : Quiet s s') : s'.transport = s.transport :=
  congrArg Connection.transport h.connection

theorem generation (h : Quiet s s') : s'.generation = s.generation :=
  congrArg Connection.generation h.connection

theorem stopping (h : Quiet s s') : s'.stopping = s.stopping :=
  congrArg Connection.stopping h.connection

theorem wired (h : Quiet s s') : s'.wired = s.wired := congrArg Connection.wired h.connection

theorem closing (h : Quiet s s') : s'.closing = s.closing :=
  congrArg Connection.closing h.connection

theorem ended (h : Quiet s s') : s'.ended = s.ended := congrArg Connection.ended h.connection

theorem nextTransport (h : Quiet s s') : s'.nextTransport = s.nextTransport :=
  congrArg Connection.nextTransport h.connection

theorem finished_iff (h : Quiet s s') (k : Nat) :
    s'.attempts k = .finished ↔ s.attempts k = .finished :=
  (h.stages k).finished_iff

theorem finished (h : Quiet s s') {k : Nat} (hover : s.attempts k = .finished) :
    s'.attempts k = .finished :=
  (h.finished_iff k).mpr hover

end Quiet

variable (s : Client)

/-- A call that settles is a quiet step from any state like the one it settles in. -/
theorem settle_quiet {s s' : Client} {call : Nat} {result : Result}
    (hconnection : s'.toConnection = s.toConnection) (htrace : s'.trace = s.trace)
    (hattempts : s'.attempts = s.attempts)
    (hresult : s.answers.pending ≠ none ∨ ∃ cause, result = .error cause)
    (hpending : s.Dead → s.answers.pending = none → s'.answers.pending = none)
    (hrunning : s.transport = none → s.running = none → s'.running = none) :
    Quiet s (s'.settle call result) where
  connection := hconnection
  trace := by
    refine ⟨[.settled call result], ?_, ?_⟩
    · rw [settle, htrace]
    · intro o ho
      rw [List.mem_singleton.mp ho]
      rfl
  stages k := by
    rw [settle, hattempts]
    exact Stage.next_hear hresult call _
  pending := hpending
  running := hrunning

theorem fail_idle : s.fail.answers.pending = none ∧ s.fail.running = none := by
  rw [fail]
  split
  · exact ⟨rfl, by assumption⟩
  · exact ⟨rfl, rfl⟩

theorem fail_quiet : Quiet s s.fail := by
  rw [fail]
  split
  · exact
      { connection := rfl
        trace := ⟨[], by simp⟩
        stages := fun k => .same _
        pending := fun _ _ => rfl
        running := fun _ h => h }
  · exact settle_quiet rfl rfl rfl (Or.inr ⟨_, rfl⟩) (fun _ _ => rfl) (fun _ _ => rfl)

theorem setStage_quiet {k : Nat} {stage : Stage}
    (h : (s.attempts k).Next (s.answers.pending ≠ none) stage) :
    Quiet s (s.setStage k stage) where
  connection := rfl
  trace := ⟨[], by simp [setStage]⟩
  stages j := by
    rw [attempts_setStage]
    by_cases hj : j = k
    · rw [if_pos hj]
      exact hj ▸ h
    · rw [if_neg hj]
      exact .same _
  pending _ hp := hp
  running _ hr := hr

/-! ### The quiet events -/

theorem openFails_quiet (k : Nat) : Quiet s (s.openFails k) := by
  rw [openFails]
  split
  · rename_i h
    exact s.setStage_quiet (h ▸ .openFails)
  · exact .refl s

theorem discarded_quiet (k : Nat) : Quiet s (s.discarded k) := by
  rw [discarded]
  split
  · rename_i cause h
    exact s.setStage_quiet (h ▸ .discarded cause)
  · exact .refl s

theorem exec_quiet (line : Str) : Quiet s (s.exec line) where
  connection := rfl
  trace := ⟨[], by simp [exec]⟩
  stages k := .same _
  pending _ h := h
  running _ h := h

/-- Going on is quiet while something is left to ask. -/
theorem goesOn_quiet {k : Nat} (h : s.attempts k ≠ .setup []) : Quiet s (s.goesOn k) := by
  rw [goesOn]
  split
  · rename_i cmd rest hk
    have hnext : ((s.exec cmd.line).attempts k).Next (s.answers.pending ≠ none)
        (.awaiting s.nextCall cmd.swallowed rest) :=
      show (s.attempts k).Next _ _ from hk ▸ .asks cmd rest s.nextCall
    have := (s.exec cmd.line).setStage_quiet hnext
    exact ⟨this.connection, this.trace, this.stages, this.pending, this.running⟩
  · rename_i hk
    exact absurd hk h
  · exact .refl s

/-- The setup of an attempt that was given up ends unseen. -/
theorem goesOn_stale {k : Nat} (hsetup : s.attempts k = .setup []) (hk : k ≠ s.generation) :
    s.goesOn k = s.setStage k .finished := by
  rw [goesOn, hsetup]
  exact if_neg hk

theorem turn_quiet (aborted : Bool) : Quiet s (s.turn aborted) := by
  rw [turn]
  split
  · rename_i call queue hrunning hqueue
    split
    · exact settle_quiet rfl rfl rfl (Or.inr ⟨_, rfl⟩) (fun _ h => h) (fun _ h => h)
    · split
      · exact settle_quiet rfl rfl rfl (Or.inr ⟨_, rfl⟩) (fun _ h => h) (fun _ h => h)
      · rename_i h
        exact
          { connection := rfl
            trace := ⟨[], by simp⟩
            stages := fun k => .same _
            pending := fun _ hp => hp
            running := fun ht _ => absurd (Or.inr ht) h }
  · exact .refl s

theorem write_quiet : Quiet s s.write := by
  rw [write]
  split
  · rename_i call hrunning hpending
    split
    · exact settle_quiet rfl rfl rfl (Or.inr ⟨_, rfl⟩) (fun _ h => h) (fun _ _ => rfl)
    · rename_i t ht
      split
      · exact settle_quiet rfl rfl rfl (Or.inr ⟨_, rfl⟩) (fun _ h => h) (fun _ _ => rfl)
      · split
        · exact settle_quiet rfl rfl rfl (Or.inr ⟨_, rfl⟩) (fun _ h => h) (fun _ _ => rfl)
        · rename_i halive
          refine ⟨rfl, ⟨_, rfl, ?_⟩, fun k => .same _, ?_, fun _ h => h⟩
          · intro o ho
            rw [List.mem_singleton.mp ho]
            rfl
          · intro hdead _
            exact absurd (hdead t ht) halive
  · exact .refl s

theorem sendFails_quiet : Quiet s s.sendFails := by
  rw [sendFails]
  split
  · exact .refl s
  · exact settle_quiet rfl rfl rfl (Or.inr ⟨_, rfl⟩) (fun _ _ => rfl) (fun _ _ => rfl)

theorem gaveUp_quiet (sending : Bool) : Quiet s (s.gaveUp sending) := by
  rw [gaveUp]
  split
  · exact .refl s
  · cases hp : s.answers.pending with
    | none =>
      exact settle_quiet rfl rfl rfl (Or.inr ⟨_, rfl⟩) (fun _ h => h) (fun _ _ => rfl)
    | some pending =>
      cases hheld : pending.held with
      | none =>
        simp only [hheld, Option.isSome_none, Bool.false_eq_true, if_false]
        exact settle_quiet rfl rfl rfl (Or.inr ⟨_, rfl⟩) (fun _ _ => rfl) (fun _ _ => rfl)
      | some held =>
        simp only [hheld, Option.isSome_some, if_true]
        exact settle_quiet rfl rfl rfl (Or.inr ⟨_, rfl⟩) (fun _ _ => rfl) (fun _ _ => rfl)

theorem lateSendFails_quiet (t : TransportID) : Quiet s (s.lateSendFails t) := by
  rw [lateSendFails]
  split
  · exact ⟨rfl, ⟨[], by simp⟩, fun k => .same _, fun _ h => h, fun _ h => h⟩
  · exact .refl s

/-- What a line or a timer leaves is quiet, if with no command on the wire it settled
nothing and put none there. -/
theorem take_quiet {r : Reading}
    (h : s.answers.pending = none → r.answers.pending = none ∧ r.settled = none) :
    Quiet s (s.take r) := by
  have hout : ∀ o ∈ r.notifications.map Output.notification, o.attempt? = none := by
    intro o ho
    obtain ⟨cmd, -, rfl⟩ := List.mem_map.mp ho
    rfl
  rw [take]
  cases hsettled : r.settled with
  | none =>
    exact ⟨rfl, ⟨_, rfl, hout⟩, fun k => .same _, fun _ hp => (h hp).1, fun _ hr => hr⟩
  | some settled =>
    obtain ⟨call, result⟩ := settled
    have hanswered : s.answers.pending ≠ none := by
      intro hp
      rw [(h hp).2] at hsettled
      cases hsettled
    refine ⟨rfl, ⟨r.notifications.map .notification ++ [.settled call result],
      by simp [settle], ?_⟩, ?_, ?_, fun _ _ => rfl⟩
    · intro o ho
      rcases List.mem_append.mp ho with ho | ho
      · exact hout o ho
      · rw [List.mem_singleton.mp ho]
        rfl
    · intro k
      exact Stage.next_hear (Or.inl hanswered) call _
    · intro _ hp
      exact absurd hp hanswered

theorem graceEnds_quiet : Quiet s (s.take (Query.graceEnds s.answers)) := by
  apply take_quiet
  intro hp
  rw [graceEnds_of_idle hp]
  exact ⟨hp, rfl⟩

theorem line_quiet (options : Options) (integerOf : Str → Option Int) (t : TransportID)
    (text : Str) : Quiet s (s.line options integerOf t text) := by
  rw [line]
  split
  · exact s.take_quiet fun hp => handleLine_of_idle hp text
  · exact .refl s

end Client

end Teamspeak.Query
