import Teamspeak.Query.Answers

/-!
# What a line changes

* `handleLine_of_idle`: with no command on the wire a line settles nothing and puts none
  there.
* `handleLine_answers_iff`: a line leaves the answers as they are if and only if it is
  `Inert`.
-/

namespace Teamspeak.Query

/-! ### With no command on the wire -/

theorem pushRow_of_idle {r : Reading} (h : r.answers.pending = none) (params : Params) :
    pushRow r params = r := by
  simp only [pushRow, h]

theorem takeRow_of_idle {r : Reading} (h : r.answers.pending = none) (row : Str) :
    (takeRow r row).answers.pending = none ∧ (takeRow r row).settled = r.settled := by
  rw [takeRow]
  split
  · exact ⟨h, rfl⟩
  · rename_i parsed hp
    have hdropped : r.dropStray.answers.pending = none := h
    split
    · split
      · rw [pushRow_of_idle hdropped]
        exact ⟨h, rfl⟩
      · exact ⟨h, rfl⟩
    · rw [pushRow_of_idle h]
      exact ⟨h, rfl⟩

theorem foldl_takeRow_of_idle {r : Reading} (h : r.answers.pending = none) (rows : List Str) :
    (rows.foldl takeRow r).answers.pending = none ∧
      (rows.foldl takeRow r).settled = r.settled := by
  induction rows generalizing r with
  | nil => exact ⟨h, rfl⟩
  | cons row rows ih =>
    obtain ⟨hrow, hsettled⟩ := takeRow_of_idle h row
    rw [List.foldl_cons, ← hsettled]
    exact ih hrow

/-- A line that finds no command on the wire settles nothing. -/
theorem handleLine_of_idle {integerOf : Str → Option Int} {web : Bool} {answers : Answers}
    (h : answers.pending = none) (line : Str) :
    (handleLine integerOf web answers line).answers.pending = none ∧
      (handleLine integerOf web answers line).settled = none := by
  rw [handleLine]
  split
  · exact ⟨h, rfl⟩
  · split
    · split
      · exact ⟨h, rfl⟩
      · rw [h]
        exact ⟨h, rfl⟩
    · split
      · exact ⟨h, rfl⟩
      · split
        · exact ⟨h, rfl⟩
        · exact foldl_takeRow_of_idle h _

theorem graceEnds_of_idle {answers : Answers} (h : answers.pending = none) :
    graceEnds answers = { answers } := by
  simp only [graceEnds, h]

/-! ### What a row adds -/

/-- The answers `a'` come of `a` by rows alone: the stray key is dropped or kept, and the
command on the wire is gone or has kept its rows. -/
def Grown (a a' : Answers) : Prop :=
  (a'.strayKey = none ∨ a'.strayKey = a.strayKey) ∧
    (a'.pending = none ∨
      ∃ p p', a.pending = some p ∧ a'.pending = some p' ∧ p.rows.length ≤ p'.rows.length)

theorem Grown.refl (a : Answers) : Grown a a := by
  refine ⟨Or.inr rfl, ?_⟩
  cases h : a.pending with
  | none => exact Or.inl rfl
  | some p => exact Or.inr ⟨p, p, rfl, rfl, Nat.le_refl _⟩

theorem Grown.trans {a b c : Answers} (hab : Grown a b) (hbc : Grown b c) : Grown a c := by
  constructor
  · rcases hbc.1 with h | h
    · exact Or.inl h
    · rw [h]
      exact hab.1
  · rcases hbc.2 with h | ⟨q, q', hq, hq', hle⟩
    · exact Or.inl h
    · rcases hab.2 with h | ⟨p, p', hp, hp', hle'⟩
      · rw [h] at hq
        cases hq
      · rw [hp', Option.some.injEq] at hq
        subst hq
        exact Or.inr ⟨p, q', hp, hq', Nat.le_trans hle' hle⟩

/-- A row given to a command is one row more for it, or ends it. -/
theorem pushRow_cases {r : Reading} {p : Pending} (h : r.answers.pending = some p)
    (params : Params) :
    (pushRow r params).answers.strayKey = r.answers.strayKey ∧
      ((pushRow r params).answers.pending = none ∨
        ∃ p', (pushRow r params).answers.pending = some p' ∧
          p'.rows.length = p.rows.length + 1) := by
  have hlength : (p.rows ++ [params]).length = p.rows.length + 1 := List.length_append
  simp only [pushRow, h]
  split
  · exact ⟨rfl, Or.inr ⟨_, rfl, hlength⟩⟩
  · split
    · split
      · exact ⟨rfl, Or.inr ⟨_, rfl, hlength⟩⟩
      · exact ⟨rfl, Or.inl rfl⟩
    · exact ⟨rfl, Or.inr ⟨_, rfl, hlength⟩⟩

theorem pushRow_grown (r : Reading) (params : Params) :
    Grown r.answers (pushRow r params).answers := by
  cases h : r.answers.pending with
  | none =>
    rw [pushRow_of_idle h]
    exact Grown.refl _
  | some p =>
    obtain ⟨hkey, hpending⟩ := pushRow_cases h params
    refine ⟨Or.inr hkey, ?_⟩
    rcases hpending with hp | ⟨p', hp, hlength⟩
    · exact Or.inl hp
    · exact Or.inr ⟨p, p', h, hp, by omega⟩

theorem takeRow_grown (r : Reading) (row : Str) : Grown r.answers (takeRow r row).answers := by
  rw [takeRow]
  split
  · exact Grown.refl _
  · have hdropped : Grown r.answers r.dropStray.answers :=
      ⟨Or.inl rfl, (Grown.refl r.answers).2⟩
    split
    · split
      · exact hdropped.trans (pushRow_grown _ _)
      · exact hdropped
    · exact pushRow_grown r _

theorem foldl_takeRow_grown (r : Reading) (rows : List Str) :
    Grown r.answers (rows.foldl takeRow r).answers := by
  induction rows generalizing r with
  | nil => exact Grown.refl _
  | cons row rows ih => exact (takeRow_grown r row).trans (ih _)

/-! ### Lines that change nothing -/

/-- A row that is no row, or finds neither a command on the wire nor a row awaited in
vain that it could be. -/
def InertRow (answers : Answers) (row : Str) : Prop :=
  ∀ parsed, parseCommand row = some parsed →
    answers.pending = none ∧ isStray answers parsed.params = false

/-- A line that leaves the answers as they are. -/
def Inert (answers : Answers) (line : Str) : Prop :=
  ∀ cmd, parseCommand (trimReturn line) = some cmd →
    if cmd.name = .of "error" then answers.abandoned ≤ 0 ∧ answers.pending = none
    else
      (Str.of "notify").isPrefixOf cmd.name ∨ answers.abandoned > 0 ∨
        ∀ row ∈ splitRows (trimReturn line), InertRow answers row

theorem takeRow_of_inert {r : Reading} {row : Str} (h : InertRow r.answers row) :
    takeRow r row = r := by
  rw [takeRow]
  split
  · rfl
  · rename_i parsed hp
    rw [if_neg (by simp [(h parsed hp).2])]
    exact pushRow_of_idle (h parsed hp).1 _

theorem foldl_takeRow_of_inert {r : Reading} {rows : List Str}
    (h : ∀ row ∈ rows, InertRow r.answers row) : rows.foldl takeRow r = r := by
  induction rows with
  | nil => rfl
  | cons row rows ih =>
    rw [List.forall_mem_cons] at h
    rw [List.foldl_cons, takeRow_of_inert h.1]
    exact ih h.2

/-- A row that is not inert leaves its mark, whatever rows come after it. -/
theorem inertRow_of_grown {r : Reading} {row : Str} {a : Answers}
    (hgrown : Grown (takeRow r row).answers a) (h : a = r.answers) : InertRow r.answers row := by
  subst h
  intro parsed hp
  have hstray : isStray r.answers parsed.params = false := by
    rw [Bool.eq_false_iff]
    intro hs
    have hkey : r.answers.strayKey ≠ none := by
      intro hk
      rw [isStray, hk] at hs
      cases hs
    have htaken : (takeRow r row).answers.strayKey = none := by
      simp only [takeRow, hp, hs, if_true]
      split
      · rcases (pushRow_grown r.dropStray parsed.params).1 with hk | hk
        · exact hk
        · exact hk
      · rfl
    rcases hgrown.1 with hk | hk
    · exact hkey hk
    · exact hkey (hk.trans htaken)
  refine ⟨?_, hstray⟩
  cases hpending : r.answers.pending with
  | none => rfl
  | some p =>
    have htake : takeRow r row = pushRow r parsed.params := by
      simp only [takeRow, hp, hstray, Bool.false_eq_true, if_false]
    rw [htake] at hgrown
    exfalso
    rcases hgrown.2 with hnone | ⟨q, q', hq, hq', hle⟩
    · rw [hpending] at hnone
      cases hnone
    · rw [hpending, Option.some.injEq] at hq'
      subst hq'
      rcases (pushRow_cases hpending parsed.params).2 with hp' | ⟨p', hp', hlength⟩
      · rw [hp'] at hq
        cases hq
      · rw [hp', Option.some.injEq] at hq
        subst hq
        omega

theorem foldl_takeRow_answers_iff {r : Reading} {rows : List Str} :
    (rows.foldl takeRow r).answers = r.answers ↔ ∀ row ∈ rows, InertRow r.answers row := by
  induction rows generalizing r with
  | nil => simp
  | cons row rows ih =>
    rw [List.foldl_cons, List.forall_mem_cons]
    constructor
    · intro h
      have hrow := inertRow_of_grown (foldl_takeRow_grown (takeRow r row) rows) h
      rw [takeRow_of_inert hrow] at h
      exact ⟨hrow, ih.mp h⟩
    · intro h
      rw [takeRow_of_inert h.1]
      exact ih.mpr h.2

theorem endAnswer_answers_ne {integerOf : Str → Option Int} {web : Bool} {answers : Answers}
    {p : Pending} (h : answers.pending = some p) (params : Params) :
    (endAnswer integerOf web answers p params).answers ≠ answers := by
  intro heq
  have hpending := congrArg Answers.pending heq
  rw [h, endAnswer] at hpending
  split at hpending
  · cases hpending
  · split at hpending
    · cases hpending
    · split at hpending
      · cases hpending
      · -- Held again: its timer has been set once more.
        simp only [Option.some.injEq] at hpending
        have htimer := congrArg (fun p : Pending => p.held.elim 0 Held.timer) hpending
        cases hheld : p.held with
        | none => simp [hheld] at htimer
        | some held => simp [hheld] at htimer

/-- **A line changes the answers unless it is inert.** -/
theorem handleLine_answers_iff (integerOf : Str → Option Int) (web : Bool) {answers : Answers}
    {line : Str} :
    (handleLine integerOf web answers line).answers = answers ↔ Inert answers line := by
  rw [handleLine, Inert]
  cases hcmd : parseCommand (trimReturn line) with
  | none => simp
  | some cmd =>
    simp only [Option.some.injEq, forall_eq']
    by_cases herror : cmd.name = .of "error"
    · rw [if_pos herror, if_pos herror]
      by_cases habandoned : answers.abandoned > 0
      · rw [if_pos habandoned]
        constructor
        · intro h
          have := congrArg Answers.abandoned h
          simp only at this
          omega
        · intro h
          omega
      · rw [if_neg habandoned]
        cases hp : answers.pending with
        | none => simp; omega
        | some p => simp [endAnswer_answers_ne hp]
    · rw [if_neg herror, if_neg herror]
      by_cases hnotify : (Str.of "notify").isPrefixOf cmd.name = true
      · rw [if_pos hnotify]
        simp [hnotify]
      · rw [if_neg hnotify]
        by_cases habandoned : answers.abandoned > 0
        · rw [if_pos habandoned]
          simp [habandoned]
        · rw [if_neg habandoned, foldl_takeRow_answers_iff]
          simp [hnotify, habandoned]

/-- A line that changes no answers settles nothing either. -/
theorem handleLine_settled_of_inert {integerOf : Str → Option Int} {web : Bool}
    {answers : Answers} {line : Str} (h : Inert answers line) :
    (handleLine integerOf web answers line).settled = none := by
  rw [handleLine]
  split
  · rfl
  · rename_i cmd hcmd
    have hinert := h cmd hcmd
    split
    · rename_i herror
      rw [if_pos herror] at hinert
      rw [if_neg (by omega), hinert.2]
    · rename_i herror
      rw [if_neg herror] at hinert
      split
      · rfl
      · rename_i hnotify
        split
        · rfl
        · rename_i habandoned
          have hrows := (hinert.resolve_left hnotify).resolve_left habandoned
          rw [foldl_takeRow_of_inert hrows]

end Teamspeak.Query
