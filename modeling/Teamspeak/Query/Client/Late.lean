import Teamspeak.Lib.Run
import Teamspeak.Query.Answers.Lines
import Teamspeak.Query.Client.Server

/-!
# Rows that come after their answer

A server may write rows of a create, or of a read, just after the `error` line that ends
its answer.  Its command may have been given up on by then.

* `LateSystem`: a client and its streams, whose server may send late rows of what it has
  answered.
* `LeakFree`: a late row of a command given up on is added to no other answer, unless that
  command has one of the row's keys among its own.
* `leakFree_iff`: it is not if and only if each finds no command on the wire, an answer still
  to let pass, its key remembered, or a command that has its key.
-/

namespace Teamspeak.Query

/-- Whether a row has one of the keys of a command's own late row. -/
def ownsRow (command : Str) (row : Params) : Bool :=
  (lateRowsOf command).any fun own => own.keys.any row.has

/-- The rows of a call's answer, on the wire or settled. -/
def Reading.rowsOf (r : Reading) (call : Nat) : List Params :=
  match r.answers.pending, r.settled with
  | some p, _ => if p.call = call then p.rows else []
  | none, some (settled, .ok rows) => if settled = call then rows else []
  | none, _ => []

/-- What the client makes of a line. -/
def Client.reading (s : Client) (integerOf : Str → Option Int) (options : Options)
    (t : TransportID) (text : Str) : Reading :=
  if s.delivers options t then handleLine integerOf (options.kind = .web) s.answers text
  else { answers := s.answers }

structure LateSystem extends System where
  /-- The calls given up on: by their caller, by a timeout, or by the wait for late rows. -/
  givenUp : List Nat := []

namespace LateSystem

inductive Event
  | base (e : System.Event)
  /-- The server sends late rows of a call it has answered. -/
  | late (t : TransportID) (call : Nat) (text : Str)
  deriving DecidableEq

variable (integerOf : Str → Option Int) (options : Options) (s : LateSystem)

/-- The calls that an event gives up on. -/
def quits : System.Event → List Nat
  | .gaveUp => (s.client.running.map Call.id).toList
  | .own .graceEnds =>
    match s.client.answers.pending with
    | none => []
    | some pending => if pending.held.isSome then [pending.call] else []
  | _ => []

/-- Whether late rows of the call can come. -/
def sendsLate (t : TransportID) (call : Nat) (text : Str) : Bool :=
  (s.answered.any fun a =>
    a.call = call ∧ a.transport = t ∧ (lateRowsOf a.command).isSome) &&
    t ∉ s.client.ended && (rowsOfLine text).isSome

def step : Event → LateSystem
  | .base e =>
    { toSystem := s.toSystem.step integerOf options e, givenUp := s.givenUp ++ s.quits e }
  | .late t call text =>
    if s.sendsLate t call text then { s with toSystem := s.hear integerOf options t text } else s

/-- The rows of the event that are late rows of a call given up on are added to the answer
of no other call, unless its command has one of their keys among its own. -/
def LeakFree : Event → Prop
  | .base _ => True
  | .late t call text =>
    s.sendsLate t call text → call ∈ s.givenUp →
      ∀ q, s.client.answers.pending = some q → q.call ≠ call →
        ∀ row ∈ ((s.client.reading integerOf options t text).rowsOf q.call).drop q.rows.length,
          ownsRow q.command row

/-- A row that is dropped, or that the command on the wire, if there is one, has for its
own. -/
def CoveredRow (r : Reading) (row : Str) : Prop :=
  ∀ parsed, parseCommand row = some parsed → ∀ q, r.answers.pending = some q →
    isStray r.answers parsed.params ∨ ownsRow q.command parsed.params

/-- When no row of the event leaks. -/
def Covered : Event → Prop
  | .base _ => True
  | .late t call text =>
    s.sendsLate t call text → call ∈ s.givenUp →
      ∀ q, s.client.answers.pending = some q → q.call ≠ call →
        s.client.delivers options t → ¬ s.client.answers.abandoned > 0 →
          Along takeRow CoveredRow { answers := s.client.answers } (splitRows (trimReturn text))

/-! ### The rows of a line -/

section

variable {r : Reading} {q : Pending}

theorem rowsOf_of_pending (hq : r.answers.pending = some q) : r.rowsOf q.call = q.rows := by
  rw [Reading.rowsOf, hq]
  exact if_pos rfl

/-- A row given to a command is the last of its answer, which goes on or has settled. -/
theorem pushRow_rowsOf (hq : r.answers.pending = some q) (params : Params) :
    (pushRow r params).rowsOf q.call = q.rows ++ [params] ∧
      ((pushRow r params).answers.pending = none ∨
        ∃ q', (pushRow r params).answers.pending = some q' ∧ q'.call = q.call ∧
          q'.command = q.command ∧ q'.rows = q.rows ++ [params]) := by
  simp only [pushRow, hq]
  split
  · exact ⟨if_pos rfl, Or.inr ⟨_, rfl, rfl, rfl, rfl⟩⟩
  · split
    · split
      · exact ⟨if_pos rfl, Or.inr ⟨_, rfl, rfl, rfl, rfl⟩⟩
      · exact ⟨if_pos rfl, Or.inl rfl⟩
    · exact ⟨if_pos rfl, Or.inr ⟨_, rfl, rfl, rfl, rfl⟩⟩

theorem has_of_only_key {row : Params} {key : Str} (h : row.entries.map Prod.fst = [key]) :
    row.has key = true := by
  obtain ⟨e, he, hkey⟩ := List.map_eq_singleton_iff.mp h
  rw [InsertionMap.has, InsertionMap.get?, he]
  simp [hkey]

/-- The key that is remembered is both the row's and the command's. -/
theorem ownsRow_of_stray (hq : r.answers.pending = some q) {row : Params}
    (hstray : isStray r.answers row = true) (howns : ownsStray r.answers = true) :
    ownsRow q.command row = true := by
  cases hkey : r.answers.strayKey with
  | none => simp [isStray, hkey] at hstray
  | some key =>
    cases hlate : lateRowsOf q.command with
    | none => simp [ownsStray, hkey, hq, hlate] at howns
    | some own =>
      rw [isStray, hkey, decide_eq_true_iff] at hstray
      rw [ownsStray, hkey, hq, Option.bind_some, hlate] at howns
      rw [ownsRow, hlate, Option.any_some, List.any_eq_true]
      exact ⟨key, List.contains_iff_mem.mp howns, has_of_only_key hstray⟩

theorem foldl_rowsOf_of_idle (h : r.answers.pending = none) (rows : List Str) (call : Nat) :
    (rows.foldl takeRow r).rowsOf call = r.rowsOf call := by
  obtain ⟨hpending, hsettled⟩ := foldl_takeRow_of_idle h rows
  rw [Reading.rowsOf, Reading.rowsOf, hpending, hsettled, h]

theorem covered_of_idle (h : r.answers.pending = none) (rows : List Str) :
    Along takeRow CoveredRow r rows := by
  induction rows generalizing r with
  | nil => trivial
  | cons row rows ih =>
    refine ⟨fun _ _ q hq => ?_, ih (takeRow_of_idle h row).1⟩
    rw [h] at hq
    cases hq

/-- What a row does to the command on the wire: nothing, or it is the next of its rows. -/
theorem takeRow_cases (hq : r.answers.pending = some q) (row : Str) :
    (CoveredRow r row ∧ (takeRow r row).answers.pending = some q) ∨
      ∃ params,
        (CoveredRow r row ↔ ownsRow q.command params) ∧
          (takeRow r row).rowsOf q.call = q.rows ++ [params] ∧
            ((takeRow r row).answers.pending = none ∨
              ∃ q', (takeRow r row).answers.pending = some q' ∧ q'.call = q.call ∧
                q'.command = q.command ∧ q'.rows = q.rows ++ [params]) := by
  cases hparsed : parseCommand row with
  | none =>
    left
    refine ⟨fun parsed hp => ?_, ?_⟩
    · rw [hparsed] at hp
      cases hp
    · rw [takeRow, hparsed]
      exact hq
  | some parsed =>
    have hcovered : CoveredRow r row ↔
        isStray r.answers parsed.params ∨ ownsRow q.command parsed.params := by
      rw [CoveredRow, hparsed]
      simp [hq]
    rw [hcovered]
    simp only [takeRow, hparsed]
    cases hstray : isStray r.answers parsed.params with
    | false =>
      right
      exact ⟨parsed.params, by simp, pushRow_rowsOf hq parsed.params⟩
    | true =>
      have hdropped : r.dropStray.answers.pending = some q := hq
      cases howns : ownsStray r.answers with
      | false => exact Or.inl ⟨Or.inl rfl, hq⟩
      | true =>
        right
        refine ⟨parsed.params, ?_, pushRow_rowsOf hdropped parsed.params⟩
        exact iff_of_true (Or.inl rfl) (ownsRow_of_stray hq hstray howns)

/-- The rows of an answer that is on the wire only grow. -/
theorem prefix_foldl_rowsOf (hq : r.answers.pending = some q) (rows : List Str) :
    q.rows <+: (rows.foldl takeRow r).rowsOf q.call := by
  induction rows generalizing r q with
  | nil =>
    exact rowsOf_of_pending hq ▸ List.prefix_rfl
  | cons row rows ih =>
    rw [List.foldl_cons]
    rcases takeRow_cases hq row with ⟨-, hsame⟩ | ⟨params, -, hrows, hnone | ⟨q', hq', hcall, -,
      hrows'⟩⟩
    · exact ih hsame
    · rw [foldl_rowsOf_of_idle hnone, hrows]
      exact List.prefix_append _ _
    · rw [← hcall]
      refine List.IsPrefix.trans ?_ (ih hq')
      rw [hrows']
      exact List.prefix_append _ _

/-- The rows that a line adds to an answer are its command's own if and only if each is
covered. -/
theorem foldl_owned_iff (hq : r.answers.pending = some q) (rows : List Str) :
    (∀ row ∈ ((rows.foldl takeRow r).rowsOf q.call).drop q.rows.length,
        ownsRow q.command row) ↔ Along takeRow CoveredRow r rows := by
  induction rows generalizing r q with
  | nil =>
    rw [List.foldl_nil, rowsOf_of_pending hq, List.drop_length]
    simp [Along]
  | cons row rows ih =>
    rw [List.foldl_cons, Along]
    rcases takeRow_cases hq row with ⟨hcovered, hsame⟩ | ⟨params, hcovered, hrows, hnone |
      ⟨q', hq', hcall, hcommand, hrows'⟩⟩
    · rw [ih hsame]
      exact (and_iff_right hcovered).symm
    · rw [foldl_rowsOf_of_idle hnone, hrows, List.drop_left, List.forall_mem_singleton,
        hcovered]
      exact (and_iff_left (covered_of_idle hnone rows)).symm
    · obtain ⟨more, hmore⟩ := prefix_foldl_rowsOf hq' rows
      have hnext := ih hq'
      rw [← hmore, List.drop_left, hcommand] at hnext
      rw [← hcall, ← hmore, hrows', List.append_assoc, List.drop_left, List.singleton_append,
        List.forall_mem_cons, hcovered, hnext]

end

/-! ### Late rows -/

theorem leakFree_iff_covered (e : Event) :
    s.LeakFree integerOf options e ↔ s.Covered options e := by
  cases e with
  | base e => exact Iff.rfl
  | late t call text =>
    simp only [LeakFree, Covered]
    refine forall_congr' fun hsends => forall_congr' fun hgone => forall_congr' fun q =>
      forall_congr' fun hq => forall_congr' fun hother => ?_
    have hsame : ∀ row ∈ ((Reading.rowsOf { answers := s.client.answers } q.call).drop
        q.rows.length), ownsRow q.command row := by
      rw [rowsOf_of_pending hq, List.drop_length]
      exact fun _ h => by cases h
    rw [Client.reading]
    by_cases hdelivers : s.client.delivers options t = true
    · rw [if_pos hdelivers, imp_iff_right hdelivers]
      rw [sendsLate, Bool.and_eq_true, Option.isSome_iff_exists] at hsends
      obtain ⟨rows, hrows⟩ := hsends.2
      rw [(handleLine_of_rows integerOf _ hrows).2]
      by_cases howed : s.client.answers.abandoned > 0
      · rw [if_pos howed]
        exact iff_of_true hsame fun h => absurd howed h
      · rw [if_neg howed, imp_iff_right howed]
        exact foldl_owned_iff (r := { answers := s.client.answers }) hq _
    · rw [if_neg hdelivers]
      exact iff_of_true hsame fun h => absurd h hdelivers

/-- **No late row of a command given up on leaks in a run** if and only if each is covered
where it comes. -/
theorem leakFree_iff (es : List Event) :
    Along (step integerOf options) (fun s e => LeakFree integerOf options s e) {} es ↔
      Along (step integerOf options) (fun s e => Covered options s e) {} es :=
  along_congr (I := fun _ => True) (fun _ _ _ _ => trivial)
    (fun s e _ => leakFree_iff_covered integerOf options s e) trivial

/-- A create is answered and held for its row; its caller gives it up, and the next command
is written. -/
def heldRun : List Event :=
  [.own .connect, .own (.opened 1 true true),
    .own (.exec (.of "channelcreate channel_name=x")), .own (.turn false), .write, .flush 0,
    .error 0 (.of "error id=0 msg=ok"), .gaveUp, .own (.exec (.of "clientkick reasonid=5 clid=1")),
    .own (.turn false), .write, .flush 0].map .base

/-- The row of the create comes, and is the next command's. -/
theorem leakFree_held :
    ¬ Along (step (fun _ => none) { kind := .ssh })
      (fun s e => LeakFree (fun _ => none) { kind := .ssh } s e) {}
      (heldRun ++ [.late 0 0 (.of "cid=7")]) := by
  intro h
  have hfree := (along_append.mp h).2.1 (by decide) (by decide)
    { call := 1, transport := 0, command := .of "clientkick" } (by decide) (by decide)
  revert hfree
  decide

end LateSystem

end Teamspeak.Query
