import Teamspeak.Query.Client.Calls

/-!
# The number of answers to let pass

* `Steady`: the answers go on as they are, but for the command on the wire, or those of a
  transport just installed begin.
* `steady_step`: the client's own events are.
-/

namespace Teamspeak.Query

namespace Client

inductive Steady (s s' : Client) : Prop
  | same (htransport : s'.transport = none ∨ s'.transport = s.transport)
      (hwired : s'.wired = s.wired) (habandoned : s'.answers.abandoned = s.answers.abandoned)
      (hkey : s'.answers.strayKey = s.answers.strayKey)
  | fresh (htransport : s'.transport = some s.nextTransport)
      (hwired : s'.wired = s.nextTransport :: s.wired) (hanswers : s'.answers = {})

variable {s s' : Client}

theorem Steady.refl (s : Client) : Steady s s := .same (Or.inr rfl) rfl rfl rfl

/-- What changes neither what is installed nor the answers. -/
theorem Steady.congr (h : Steady s s') {s'' : Client} (htransport : s''.transport = s'.transport)
    (hwired : s''.wired = s'.wired) (hanswers : s''.answers = s'.answers) : Steady s s'' := by
  rcases h with ⟨h, h', habandoned, hkey⟩ | ⟨h, h', hempty⟩
  · exact .same (by rw [htransport]; exact h) (hwired.trans h') (by rw [hanswers, habandoned])
      (by rw [hanswers, hkey])
  · exact .fresh (htransport.trans h) (hwired.trans h') (hanswers.trans hempty)

theorem fail_steady {d : Client} (htransport : d.transport = none) (hwired : d.wired = s.wired)
    (hanswers : d.answers = s.answers) : Steady s d.fail := by
  refine .same (Or.inl (d.fail_quiet.transport.trans htransport))
    (d.fail_quiet.wired.trans hwired) ?_ ?_
  · rw [← hanswers, fail]
    split
    · rfl
    · rfl
  · rw [← hanswers, fail]
    split
    · rfl
    · rfl

theorem Steady.close {d : Client} (h : Steady s d) (options : Options)
    (transport : Option TransportID) :
    Steady s (transport.elim d (d.closeTransport options)) := by
  cases transport with
  | none => exact h
  | some t => exact h.congr rfl rfl rfl

theorem handleClose_steady (options : Options) (ended : List TransportID) :
    Steady s (({ s with ended } : Client).handleClose options) := by
  have hdown : Steady s
      { s with ended, transport := none, closed := true, status := .disconnected }.fail :=
    fail_steady rfl rfl rfl
  rw [handleClose]
  split
  · exact (Steady.refl s).congr rfl rfl rfl
  · split
    · exact hdown.congr rfl rfl rfl
    · exact hdown

theorem failConnection_steady (options : Options) (k : Nat) :
    Steady s (s.failConnection options k) := by
  have hdown : Steady s
      { s with transport := none, closed := true, status := .disconnected }.fail :=
    fail_steady rfl rfl rfl
  rw [failConnection]
  split
  · exact .refl s
  · dsimp only
    split
    · exact (hdown.close options s.transport).congr rfl rfl rfl
    · exact hdown.close options s.transport

theorem disconnect_steady (options : Options) : Steady s (s.disconnect options) := by
  have hdown : Steady s
      { s with
        stopped := true, generation := s.generation + 1, status := .disconnected,
        stopping := some s.generation, transport := none, closed := true }.fail :=
    fail_steady rfl rfl rfl
  rw [disconnect]
  split
  · exact (Steady.refl s).congr rfl rfl rfl
  · exact hdown.close options s.transport

theorem connect_steady : Steady s s.connect := by
  rw [connect]
  split
  · exact (Steady.refl s).congr rfl rfl rfl
  · exact .refl s

theorem write_steady (s : Client) : Steady s s.write := by
  rw [write]
  split
  · split
    · exact .same (Or.inr rfl) rfl rfl rfl
    · split
      · exact .same (Or.inr rfl) rfl rfl rfl
      · split
        · exact .same (Or.inr rfl) rfl rfl rfl
        · exact .same (Or.inr rfl) rfl rfl rfl
  · exact .refl s

/-- The client's own events let no answer pass, and count none anew. -/
theorem steady_step (integerOf : Str → Option Int) (options : Options) {e : Event}
    (hown : System.isOwn e = true) (hgrace : e ≠ .graceEnds) :
    Steady s (step integerOf options s e) := by
  have hsame := Steady.refl s
  cases e with
  | connect => exact connect_steady
  | disconnect => exact disconnect_steady options
  | tornDown =>
    rw [step, tornDown]
    split
    · exact hsame
    · exact hsame.congr rfl rfl rfl
  | retry =>
    rw [step, retry]
    split
    · exact connect_steady.congr rfl rfl rfl
    · exact hsame
  | loopEnds =>
    rw [step, loopEnds]
    split
    · exact hsame.congr rfl rfl rfl
    · exact hsame
  | opened k notifications alive =>
    rw [step, opened]
    split
    · dsimp only
      split
      · exact hsame.congr rfl rfl rfl
      · split
        · exact hsame.congr rfl rfl rfl
        · exact .fresh rfl rfl rfl
    · exact hsame
  | openFails k =>
    rw [step, openFails]
    split
    · exact hsame.congr rfl rfl rfl
    · exact hsame
  | discarded k =>
    rw [step, discarded]
    split
    · exact hsame.congr rfl rfl rfl
    · exact hsame
  | goesOn k =>
    rw [step, goesOn]
    split
    · exact hsame.congr rfl rfl rfl
    · split
      · exact hsame.congr rfl rfl rfl
      · exact hsame.congr rfl rfl rfl
    · exact hsame
  | fails k =>
    rw [step, fails]
    split
    · exact (failConnection_steady options k).congr rfl rfl rfl
    · exact hsame
  | exec line => exact hsame.congr rfl rfl rfl
  | turn aborted =>
    rw [step, turn]
    split
    · split
      · exact hsame.congr rfl rfl rfl
      · split
        · exact hsame.congr rfl rfl rfl
        · exact hsame.congr rfl rfl rfl
    · exact hsame
  | closes t =>
    rw [step, closes]
    split
    · dsimp only
      split
      · exact handleClose_steady options _
      · exact hsame.congr rfl rfl rfl
    · exact hsame
  | graceEnds => exact absurd rfl hgrace
  | write => cases hown
  | sendFails => cases hown
  | gaveUp sending => cases hown
  | lateSendFails t => cases hown
  | line t text => cases hown

end Client

end Teamspeak.Query
