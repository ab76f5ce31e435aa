import Teamspeak.Query.Answers

/-!
# An answer as the server sends it

What a line is to the server that sends it, some rows, the `error` line of an answer or a
notification, and what it comes to for the command that is on the wire.

* `rowsOfLine`, `errorOfLine`, `isNotification`: the kinds of line.
* `keptRows`: the rows of a line but for the one taken for the row that an earlier create
  waited for in vain.
* `answerResult`: what a whole answer comes to.
-/

namespace Teamspeak.Query

/-- The rows of a line that is neither an `error` nor a notification. -/
def rowsOfLine (text : Str) : Option (List Params) :=
  match parseCommand (trimReturn text) with
  | none => none
  | some cmd =>
    if cmd.name = .of "error" ∨ (Str.of "notify").isPrefixOf cmd.name then none
    else
      some (((splitRows (trimReturn text)).filterMap parseCommand).map Command.params)

/-- The parameters of an `error` line. -/
def errorOfLine (text : Str) : Option Params :=
  match parseCommand (trimReturn text) with
  | none => none
  | some cmd => if cmd.name = .of "error" then some cmd.params else none

def isNotification (text : Str) : Bool :=
  match parseCommand (trimReturn text) with
  | none => false
  | some cmd => cmd.name ≠ .of "error" ∧ (Str.of "notify").isPrefixOf cmd.name

/-- All rows but the first that is the stray one, unless the command that asks has that
key among its own. -/
def keptRows (answers : Answers) (rows : List Params) : List Params :=
  if ownsStray answers then rows else rows.eraseP (isStray answers)

/-- What an answer of these rows and this `error` line comes to. -/
def answerResult (integerOf : Str → Option Int) (command : Str) (rows : List Params)
    (error : Params) : Result :=
  match (parseServerError error).1.orElse fun _ => transferRefusal integerOf command rows with
  | some refusal => .error (.refused refusal)
  | none => .ok rows

/-! ### Rows -/

variable {answers : Answers}

theorem isStray_of_none (h : answers.strayKey = none) (row : Params) :
    isStray answers row = false := by
  rw [isStray, h]

theorem keptRows_of_none (h : answers.strayKey = none) (rows : List Params) :
    keptRows answers rows = rows := by
  rw [keptRows]
  split
  · rfl
  · exact List.eraseP_of_forall_not fun row _ => by simp [isStray_of_none h]

theorem keptRows_cons_of_stray {row : Params} (h : isStray answers row = true)
    (rows : List Params) :
    keptRows answers (row :: rows) = if ownsStray answers then row :: rows else rows := by
  rw [keptRows, List.eraseP_cons_of_pos h]

theorem keptRows_cons {row : Params} (h : isStray answers row = false) (rows : List Params) :
    keptRows answers (row :: rows) = row :: keptRows answers rows := by
  rw [keptRows, List.eraseP_cons_of_neg (by simp [h]), keptRows]
  split
  · rfl
  · rfl

/-- What is kept of some rows turns on the stray key and on the command that asks. -/
theorem keptRows_withPending {p q : Pending} (hp : answers.pending = some p)
    (hcommand : q.command = p.command) (rows : List Params) :
    keptRows { answers with pending := some q } rows = keptRows answers rows := by
  have howns : ownsStray { answers with pending := some q } = ownsStray answers := by
    simp only [ownsStray, hp, Option.bind_some, hcommand]
  have hstray : isStray { answers with pending := some q } = isStray answers := rfl
  rw [keptRows, keptRows, howns, hstray]

/-- What is lost of some rows, if anything, is one row that was taken for the stray one. -/
theorem keptRows_cases (answers : Answers) (rows : List Params) :
    keptRows answers rows = rows ∨
      ownsStray answers = false ∧ ∃ front row back,
        rows = front ++ row :: back ∧ keptRows answers rows = front ++ back ∧
          isStray answers row = true := by
  rw [keptRows]
  split
  · exact Or.inl rfl
  · rename_i howns
    rcases List.exists_or_eq_self_of_eraseP (isStray answers) rows with h | h
    · exact Or.inl h
    · obtain ⟨row, front, back, -, hrow, hrows, hkept⟩ := h
      exact Or.inr ⟨by simpa using howns, front, row, back, hrows, hkept, hrow⟩

theorem takeRow_of_unparsed {text : Str} (h : parseCommand text = none) (r : Reading) :
    takeRow r text = r := by
  rw [takeRow, h]

theorem pushRow_of_pending {r : Reading} {p : Pending} (hp : r.answers.pending = some p)
    (hheld : p.held = none) (row : Params) :
    pushRow r row =
      { r with
        answers := { r.answers with pending := some { p with rows := p.rows ++ [row] } } } := by
  simp only [pushRow, hp, hheld]

/-- **The rows of a line**, for a command on the wire that is not held. -/
theorem foldl_takeRow_of_pending (texts : List Str) {r : Reading} {p : Pending}
    (hp : r.answers.pending = some p) (hheld : p.held = none) {rows : List Params}
    (hrows : (texts.filterMap parseCommand).map Command.params = rows) :
    texts.foldl takeRow r =
      { r with
        answers :=
          { r.answers with
            pending := some { p with rows := p.rows ++ keptRows r.answers rows }
            strayKey :=
              if rows.any (isStray r.answers) then none else r.answers.strayKey } } := by
  induction texts generalizing r p rows with
  | nil =>
    subst hrows
    obtain ⟨answers, settled, notifications⟩ := r
    obtain ⟨pending, strayKey, abandoned⟩ := answers
    obtain rfl : pending = some p := hp
    simp [keptRows]
  | cons text texts ih =>
    rw [List.foldl_cons]
    cases hparsed : parseCommand text with
    | none =>
      rw [List.filterMap_cons_none hparsed] at hrows
      rw [takeRow_of_unparsed hparsed]
      exact ih hp hheld hrows
    | some parsed =>
      rw [List.filterMap_cons_some hparsed, List.map_cons] at hrows
      subst hrows
      cases hstray : isStray r.answers parsed.params with
      | false =>
        have htake : takeRow r text = pushRow r parsed.params := by
          simp [takeRow, hparsed, hstray]
        rw [htake, pushRow_of_pending hp hheld]
        have hnext := ih
          (r := { r with
            answers :=
              { r.answers with pending := some { p with rows := p.rows ++ [parsed.params] } } })
          rfl hheld rfl
        rw [hnext, keptRows_withPending hp (by rfl), keptRows_cons hstray, List.any_cons, hstray,
          Bool.false_or, List.append_assoc, List.singleton_append]
        rfl
      | true =>
        rw [keptRows_cons_of_stray hstray, List.any_cons, hstray, Bool.true_or, if_pos rfl]
        have hdropped : r.dropStray.answers.pending = some p := hp
        have hkey : r.dropStray.answers.strayKey = none := rfl
        cases howns : ownsStray r.answers with
        | false =>
          have htake : takeRow r text = r.dropStray := by
            simp [takeRow, hparsed, hstray, howns]
          rw [htake, ih hdropped hheld rfl, keptRows_of_none hkey]
          simp [Reading.dropStray, isStray_of_none]
        | true =>
          have htake : takeRow r text = pushRow r.dropStray parsed.params := by
            simp [takeRow, hparsed, hstray, howns]
          have hnext := ih
            (r := { r.dropStray with
              answers :=
                { r.dropStray.answers with
                  pending := some { p with rows := p.rows ++ [parsed.params] } } })
            rfl hheld rfl
          rw [htake, pushRow_of_pending hdropped hheld, hnext, keptRows_of_none (by rfl)]
          simp [Reading.dropStray, isStray_of_none]

/-! ### Lines -/

variable (integerOf : Str → Option Int) (web : Bool) {text : Str}

/-- A line of rows is read when no answer is still to let pass. -/
theorem handleLine_of_rows {rows : List Params} (h : rowsOfLine text = some rows) :
    ((splitRows (trimReturn text)).filterMap parseCommand).map Command.params = rows ∧
      handleLine integerOf web answers text =
        if answers.abandoned > 0 then { answers }
        else (splitRows (trimReturn text)).foldl takeRow { answers } := by
  rw [rowsOfLine] at h
  split at h
  · cases h
  · rename_i cmd hcmd
    split at h
    · cases h
    · rename_i hkind
      rw [not_or] at hkind
      refine ⟨Option.some.inj h, ?_⟩
      simp only [handleLine, hcmd]
      rw [if_neg hkind.1, if_neg hkind.2]

/-- A line of rows is nothing to a client that is owed an answer to another command. -/
theorem handleLine_rows_of_owed {rows : List Params} (h : rowsOfLine text = some rows)
    (howed : answers.abandoned > 0) : handleLine integerOf web answers text = { answers } := by
  rw [(handleLine_of_rows integerOf web h).2, if_pos howed]

/-- A line of rows is the answer of the command on the wire. -/
theorem handleLine_rows {rows : List Params} (h : rowsOfLine text = some rows)
    (howed : ¬ answers.abandoned > 0) {p : Pending} (hp : answers.pending = some p)
    (hheld : p.held = none) :
    handleLine integerOf web answers text =
      { answers :=
          { answers with
            pending := some { p with rows := p.rows ++ keptRows answers rows }
            strayKey := if rows.any (isStray answers) then none else answers.strayKey } } := by
  obtain ⟨hrows, hline⟩ := handleLine_of_rows integerOf web h
  rw [hline, if_neg howed]
  exact foldl_takeRow_of_pending _ (r := { answers }) hp hheld hrows

theorem handleLine_error {error : Params} (h : errorOfLine text = some error) :
    handleLine integerOf web answers text =
      if answers.abandoned > 0 then
        { answers := { answers with abandoned := answers.abandoned - 1 } }
      else
        match answers.pending with
        | none => { answers }
        | some p => endAnswer integerOf web answers p error := by
  rw [errorOfLine] at h
  split at h
  · cases h
  · rename_i cmd hcmd
    split at h
    · rename_i hname
      simp only [handleLine, hcmd]
      obtain rfl := Option.some.inj h
      exact if_pos hname
    · cases h

theorem handleLine_notification (answers : Answers) (h : isNotification text = true) :
    (handleLine integerOf web answers text).answers = answers ∧
      (handleLine integerOf web answers text).settled = none := by
  rw [isNotification] at h
  split at h
  · cases h
  · rename_i cmd hcmd
    rw [decide_eq_true_iff] at h
    simp only [handleLine, hcmd]
    rw [if_neg h.1, if_pos h.2]
    exact ⟨rfl, rfl⟩

/-- The `error` line of a command settles it with its whole answer, or holds it when that
is no refusal. -/
theorem endAnswer_cases (answers : Answers) (p : Pending) (error : Params) :
    (endAnswer integerOf web answers p error =
        { answers := { answers with pending := none, strayKey := none }
          settled := some (p.call, answerResult integerOf p.command p.rows error) }) ∨
      ∃ held late, lateRowsOf p.command = some late ∧ held.keys = late.keys ∧
        answerResult integerOf p.command p.rows error = .ok p.rows ∧
        endAnswer integerOf web answers p error =
          { answers :=
              { answers with pending := some { p with held := some held }, strayKey := none } } := by
  rw [endAnswer, answerResult]
  cases hrefusal : (parseServerError error).1.orElse fun _ =>
      transferRefusal integerOf p.command p.rows with
  | some refusal => exact Or.inl rfl
  | none =>
    dsimp only
    split
    · exact Or.inl rfl
    · rename_i late hlate
      split
      · exact Or.inl rfl
      · refine Or.inr ⟨_, late, ?_, rfl, rfl, rfl⟩
        cases web with
        | true => cases hlate
        | false => exact hlate

end Teamspeak.Query
