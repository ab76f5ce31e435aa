import Teamspeak.Query.Answers.Lines
import Teamspeak.Query.Web.Lines

/-!
# What the client makes of an answer's lines

* `Client.foldl_handle_response`: the lines of an answer settle the command on the wire.
* `Answers.Fresh`: a command on the wire has no row yet and is not held.
* `Client.fresh_response`: it is so again after the lines of any answer.
-/

namespace Teamspeak.Query

theorem endAnswer_web (integerOf : Str → Option Int) (answers : Answers) (p : Pending)
    (error : Params) :
    endAnswer integerOf true answers p error =
      { answers := { answers with pending := none, strayKey := none }
        settled := some (p.call, answerResult integerOf p.command p.rows error) } := by
  rw [endAnswer, answerResult]
  cases (parseServerError error).1.orElse fun _ =>
      transferRefusal integerOf p.command p.rows with
  | some refusal => rfl
  | none => rfl

/-! ### The line handler -/

namespace Client

variable {c : Client} {options : Options} {t : TransportID} {p : Pending}
  {integerOf : Str → Option Int}

/-- `#handleLine` of a web client. -/
def handle (integerOf : Str → Option Int) (c : Client) (text : Str) : Client :=
  c.take (handleLine integerOf true c.answers text)

theorem delivers_take (r : Reading) : (c.take r).delivers options t = c.delivers options t := by
  rw [take]
  split
  · rfl
  · rfl

/-- Lines that the transport delivers are handled one after another. -/
theorem foldl_line (hweb : options.kind = .web) (hdelivers : c.delivers options t = true)
    (lines : List Str) :
    lines.foldl (fun c text => c.line options integerOf t text) c =
      lines.foldl (handle integerOf) c := by
  induction lines generalizing c with
  | nil => rfl
  | cons text lines ih =>
    have hline : c.line options integerOf t text = handle integerOf c text := by
      rw [line, if_pos hdelivers, handle, hweb]
      rfl
    rw [List.foldl_cons, List.foldl_cons, hline]
    exact ih ((delivers_take _).trans hdelivers)

/-- The rows of an answer are those of the command on the wire. -/
theorem foldl_handle_rows (rows : List JsonRow) (hrows : ∀ row ∈ rows, ReadsBack row)
    (hclear : c.answers.abandoned ≤ 0) (hkey : c.answers.strayKey = none)
    (hp : c.answers.pending = some p) (hheld : p.held = none) :
    (rows.map rowLine).foldl (handle integerOf) c =
      { c with
        answers :=
          { c.answers with pending := some { p with rows := p.rows ++ rows.map rowOf } } } := by
  induction rows generalizing c p with
  | nil =>
    obtain ⟨connection, answers, queue, running, nextCall, unsent, attempts, trace⟩ := c
    obtain ⟨pending, strayKey, abandoned⟩ := answers
    obtain rfl : pending = some p := hp
    simp
  | cons row rows ih =>
    rw [List.forall_mem_cons] at hrows
    have hread : rowsOfLine (rowLine row) = some [rowOf row] := hrows.1
    have hline : handle integerOf c (rowLine row) =
        { c with
          answers :=
            { c.answers with pending := some { p with rows := p.rows ++ [rowOf row] } } } := by
      rw [handle, handleLine_rows integerOf _ hread (by omega) hp hheld, keptRows_of_none hkey,
        hkey]
      simp [take, hkey]
    rw [List.map_cons, List.foldl_cons, hline]
    have hnext := ih
      (c := { c with
        answers :=
          { c.answers with pending := some { p with rows := p.rows ++ [rowOf row] } } })
      hrows.2 hclear hkey rfl hheld
    rw [hnext]
    simp

/-- The `error` line of an answer settles the command on the wire. -/
theorem handle_error_web {text : Str} {error : Params} (herror : errorOfLine text = some error)
    (hclear : c.answers.abandoned ≤ 0) (hp : c.answers.pending = some p) :
    handle integerOf c text =
      ({ c with
        answers := { c.answers with pending := none, strayKey := none }, running := none } :
          Client).settle p.call (answerResult integerOf p.command p.rows error) := by
  rw [handle, handleLine_error integerOf _ herror, if_neg (by omega)]
  simp only [hp, endAnswer_web]
  simp [take]

/-- **The lines of an answer settle the command on the wire** with the answer's rows and its
`error` line. -/
theorem foldl_handle_response (rows : List JsonRow) (hrows : ∀ row ∈ rows, ReadsBack row)
    {text : Str} {error : Params} (herror : errorOfLine text = some error)
    (hclear : c.answers.abandoned ≤ 0) (hkey : c.answers.strayKey = none)
    (hp : c.answers.pending = some p) (hheld : p.held = none) (hempty : p.rows = []) :
    (rows.map rowLine ++ [text]).foldl (handle integerOf) c =
      ({ c with
        answers := { c.answers with pending := none, strayKey := none }, running := none } :
          Client).settle p.call (answerResult integerOf p.command (rows.map rowOf) error) := by
  rw [List.foldl_append, foldl_handle_rows rows hrows hclear hkey hp hheld, List.foldl_cons,
    List.foldl_nil]
  refine (handle_error_web herror (by exact hclear) rfl).trans ?_
  rw [hempty, List.nil_append]

end Client

/-! ### Between answers -/

namespace Answers

variable {answers : Answers}

/-- Nothing came for the command on the wire so far, and nothing is waited for but its answer. -/
structure Fresh (answers : Answers) : Prop where
  stray : answers.strayKey = none
  pending : ∀ p, answers.pending = some p → p.held = none ∧ p.rows = []

theorem fresh_empty : Fresh {} where
  stray := rfl
  pending _ h := by cases h

theorem Fresh.idle (h : Fresh answers) : Fresh { answers with pending := none } where
  stray := h.stray
  pending _ hp := by cases hp

/-- Between the lines of an answer: rows have come, if any answer is let in at all. -/
structure Open (answers : Answers) : Prop where
  stray : answers.strayKey = none
  pending : ∀ p, answers.pending = some p →
    p.held = none ∧ (answers.abandoned > 0 → p.rows = [])

theorem Fresh.open (h : Fresh answers) : Open answers where
  stray := h.stray
  pending p hp := ⟨(h.pending p hp).1, fun _ => (h.pending p hp).2⟩

/-- A row of an answer, whatever its keys, comes to the command on the wire or to none. -/
theorem Open.row (h : Open answers) (integerOf : Str → Option Int) (row : JsonRow) :
    Open (handleLine integerOf true answers (rowLine row)).answers := by
  cases hparse : parseCommand (trimReturn (rowLine row)) with
  | none =>
    rw [handleLine, hparse]
    exact h
  | some cmd =>
    obtain ⟨rows, hrows⟩ : ∃ rows, rowsOfLine (rowLine row) = some rows := by
      have hname := nameless_rowLine hparse
      simp only [rowsOfLine, hparse, hname]
      exact ⟨_, if_neg (by decide)⟩
    by_cases howed : answers.abandoned > 0
    · rw [handleLine_rows_of_owed integerOf true hrows howed]
      exact h
    · cases hp : answers.pending with
      | none =>
        rw [(handleLine_of_rows integerOf true hrows).2, if_neg howed]
        have hidle := foldl_takeRow_of_idle (r := { answers }) hp
          (splitRows (trimReturn (rowLine row)))
        have hkey := (foldl_takeRow_grown { answers } (splitRows (trimReturn (rowLine row)))).1
        refine ⟨?_, fun p' hp' => ?_⟩
        · rcases hkey with hkey | hkey
          · exact hkey
          · exact hkey.trans h.stray
        · cases hidle.1.symm.trans hp'
      | some p =>
        rw [handleLine_rows integerOf true hrows howed hp (h.pending p hp).1]
        refine ⟨?_, fun p' hp' => ?_⟩
        · dsimp only
          rw [h.stray, ite_self]
        · obtain rfl := Option.some.inj hp'
          exact ⟨(h.pending p hp).1, fun hlt => absurd hlt howed⟩

/-- The `error` line ends the answer, or is let pass. -/
theorem Open.error (h : Open answers) (integerOf : Str → Option Int) {text : Str} {error : Params}
    (herror : errorOfLine text = some error) :
    Fresh (handleLine integerOf true answers text).answers := by
  rw [handleLine_error integerOf true herror]
  split
  · rename_i howed
    exact ⟨h.stray, fun p hp => ⟨(h.pending p hp).1, (h.pending p hp).2 howed⟩⟩
  · cases hp : answers.pending with
    | none => exact ⟨h.stray, fun p hp' => by cases hp.symm.trans hp'⟩
    | some p =>
      dsimp only
      rw [endAnswer_web]
      exact ⟨rfl, fun p' hp' => by cases hp'⟩

end Answers

namespace Client

variable {c : Client} {integerOf : Str → Option Int}

theorem answers_handle (text : Str) :
    (handle integerOf c text).answers = (handleLine integerOf true c.answers text).answers := by
  rw [handle, take]
  split
  · rfl
  · rfl

/-- **The lines of any answer** leave nothing of it. -/
theorem fresh_response (h : c.answers.Fresh) (rows : List JsonRow) {text : Str} {error : Params}
    (herror : errorOfLine text = some error) :
    ((rows.map rowLine ++ [text]).foldl (handle integerOf) c).answers.Fresh := by
  have hopen : ((rows.map rowLine).foldl (handle integerOf) c).answers.Open := by
    have hbefore := h.open
    clear h
    induction rows generalizing c with
    | nil => exact hbefore
    | cons row rows ih =>
      rw [List.map_cons, List.foldl_cons]
      apply ih
      rw [answers_handle]
      exact hbefore.row integerOf row
  rw [List.foldl_append, List.foldl_cons, List.foldl_nil, answers_handle]
  exact hopen.error integerOf herror

end Client

end Teamspeak.Query
