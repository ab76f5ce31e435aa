import Mathlib.Data.List.Range
import Teamspeak.Client.Commands

/-!
# The tracker's books

What holds of a `CommandTracker`'s commands in flight, after any operations in any
order.

* `Change`, `step_change`: everything an operation does to the commands in flight.
* `Books`, `books_after`: return codes go up by one, a command in flight has not
  settled, and it is as it was registered.
* `Books.over`: what is in flight no more does not settle.
-/

namespace Teamspeak

namespace Client

variable {ρ : Type*}

/-! ### What is seen -/

/-- The return code given out. -/
def Tracked.givenRC : Tracked ρ → Option Nat
  | .registered rc _ => some rc
  | .settled _ _ => none

/-- The command whose promise was resolved. -/
def Tracked.settledRC : Tracked ρ → Option Nat
  | .registered _ _ => none
  | .settled rc _ => some rc

/-- The rows a command was given. -/
def Tracked.rows : Tracked ρ → List ρ
  | .registered _ _ => []
  | .settled _ result => result.data

/-- The row an operation offers. -/
def Op.rows : Op ρ → List ρ
  | .buffer params _ => [params]
  | .offerCorrelated _ params => [params]
  | _ => []

/-- Whether an operation empties the buffer. -/
def Op.clears : Op ρ → Bool
  | .signalWelcomeComplete | .resolve _ _ _ | .discardBuffer | .reset _ => true
  | _ => false

/-- The command is the one that was registered, but for what it has been answered. -/
structure PendingCommand.Asks (p q : PendingCommand ρ) : Prop where
  spec : p.spec = q.spec
  correlation : p.correlation = q.correlation
  echo : p.echo = q.echo

theorem PendingCommand.Asks.awaits {p q : PendingCommand ρ} (h : p.Asks q) :
    p.awaits = q.awaits := by
  rw [PendingCommand.awaits, PendingCommand.awaits, h.spec, h.correlation]

theorem PendingCommand.Asks.answers [Fields ρ] {p q : PendingCommand ρ} (h : p.Asks q)
    (own : Nat) : p.answers own = q.answers own := by
  funext row
  rw [PendingCommand.answers, PendingCommand.answers, h.spec, h.echo]

/-- A command that awaits no correlated answer has got none. -/
def PendingCommand.Plain (p : PendingCommand ρ) : Prop :=
  p.awaits = none → p.correlated = [] ∧ p.settled = none

/-- The rows a command in flight has been given. -/
def PendingCommand.rows (p : PendingCommand ρ) : List ρ :=
  (p.settled.map CommandResult.data).getD [] ++ p.correlated

namespace CommandTracker

variable {op : Op ρ} {t t' : CommandTracker ρ}

/-! ### What an operation does -/

/-- What an operation does to the commands in flight and to the trace. -/
inductive Change (op : Op ρ) (t t' : CommandTracker ρ) : Prop
  | quiet (hpending : t'.pending = t.pending) (hrc : t'.nextRC = t.nextRC)
      (htrace : t'.trace = t.trace)
  | registered (p : PendingCommand ρ) (hplain : p.Plain) (hrc : t'.nextRC = t.nextRC + 1)
      (hpending : t'.pending = t.pending.set (t.nextRC + 1) p)
      (htrace : t'.trace = t.trace ++ [.registered (t.nextRC + 1) p])
  | unregistered (rc : Nat) (hop : op = .unregister rc)
      (hpending : t'.pending = t.pending.delete rc)
      (hrc : t'.nextRC = t.nextRC) (htrace : t'.trace = t.trace)
  | answered (rc : Nat) (p p' : PendingCommand ρ) (hget : t.pending.get? rc = some p)
      (hasks : p'.Asks p) (hawaits : p.awaits.isSome = true)
      (hpending : t'.pending = t.pending.set rc p') (hrc : t'.nextRC = t.nextRC)
      (htrace : t'.trace = t.trace)
  | settled (rc : Nat) (p : PendingCommand ρ) (result : CommandResult ρ)
      (hget : t.pending.get? rc = some p) (hpending : t'.pending = t.pending.delete rc)
      (hrc : t'.nextRC = t.nextRC) (htrace : t'.trace = t.trace ++ [.settled rc result])
  | reset (err : Failure) (hpending : t'.pending = .empty) (hrc : t'.nextRC = t.nextRC)
      (htrace : t'.trace =
        t.trace ++ t.pending.entries.map fun e => .settled e.1 ⟨some err, []⟩)

/-- The trace only grows, and what it grows by settles commands that were in flight
and are so no more. -/
theorem Change.trace_grows (h : Change op t t') : ∃ outs, t'.trace = t.trace ++ outs ∧
    (∀ rc r, .settled rc r ∈ outs → t.pending.has rc = true ∧ t'.pending.has rc = false) ∧
    (outs.filterMap Tracked.settledRC).Nodup := by
  cases h with
  | quiet _ _ htrace => exact ⟨[], by simp [htrace], by simp, List.nodup_nil⟩
  | registered p _ _ _ htrace => exact ⟨_, htrace, by simp, List.nodup_nil⟩
  | unregistered rc _ _ _ htrace => exact ⟨[], by simp [htrace], by simp, List.nodup_nil⟩
  | answered rc p p' _ _ _ _ _ htrace => exact ⟨[], by simp [htrace], by simp, List.nodup_nil⟩
  | settled rc p result hget hpending _ htrace =>
    refine ⟨_, htrace, ?_, List.nodup_singleton rc⟩
    intro rc' r hr
    obtain ⟨rfl, -⟩ : rc' = rc ∧ r = result := by simpa using hr
    rw [hpending, InsertionMap.has_eq_false, InsertionMap.get?_delete_self]
    exact ⟨InsertionMap.has_iff.mpr ⟨p, hget⟩, rfl⟩
  | reset err hpending _ htrace =>
    refine ⟨_, htrace, ?_, ?_⟩
    · intro rc r hr
      obtain ⟨⟨rc', p⟩, hp, heq⟩ := List.mem_map.mp hr
      obtain ⟨rfl, -⟩ : rc' = rc ∧ _ = r := by simpa using heq
      rw [hpending, InsertionMap.has_eq_false]
      exact ⟨InsertionMap.has_iff.mpr ⟨p, InsertionMap.mem_entries.mp hp⟩, rfl⟩
    · rw [List.filterMap_map]
      show (t.pending.entries.filterMap fun e => some e.1).Nodup
      rw [List.filterMap_eq_map']
      exact t.pending.nodup

/-! ### The books -/

/-- The return codes go up by one, what has been settled is in flight no more, and
what is in flight is as it was registered. -/
structure Books (t : CommandTracker ρ) : Prop where
  given : t.trace.filterMap Tracked.givenRC = List.range' 1 t.nextRC
  once : (t.trace.filterMap Tracked.settledRC).Nodup
  settled_le : ∀ rc r, .settled rc r ∈ t.trace → rc ≤ t.nextRC
  le : ∀ rc, t.pending.has rc = true → rc ≤ t.nextRC
  unsettled : ∀ rc, t.pending.has rc = true → ∀ r, .settled rc r ∉ t.trace
  asks : ∀ rc p q, t.pending.get? rc = some p → .registered rc q ∈ t.trace → p.Asks q
  plain : ∀ rc p, t.pending.get? rc = some p → p.Plain

theorem registered_mem {rc : Nat} {p : PendingCommand ρ} (h : .registered rc p ∈ t.trace) :
    rc ∈ t.trace.filterMap Tracked.givenRC :=
  List.mem_filterMap.mpr ⟨_, h, rfl⟩

theorem Books.registered_le (hb : Books t) {rc : Nat} {p : PendingCommand ρ}
    (h : .registered rc p ∈ t.trace) : rc ≤ t.nextRC := by
  have hmem := registered_mem h
  rw [hb.given, List.mem_range'_1] at hmem
  omega

theorem books_new : Books (new : CommandTracker ρ) where
  given := rfl
  once := List.nodup_nil
  settled_le _ _ h := absurd h (List.not_mem_nil)
  le _ h := absurd h (by simp [new, InsertionMap.has])
  unsettled _ _ _ h := absurd h (List.not_mem_nil)
  asks _ _ _ h := absurd h (by simp [new])
  plain _ _ h := absurd h (by simp [new])

/-- What no longer waits for anything leaves the books right. -/
theorem Books.of_subset (hb : Books t) (hrc : t'.nextRC = t.nextRC)
    (hget : ∀ rc p, t'.pending.get? rc = some p → t.pending.get? rc = some p)
    (htrace : t'.trace = t.trace) : Books t' := by
  have hhas : ∀ rc, t'.pending.has rc = true → t.pending.has rc = true := by
    intro rc h
    obtain ⟨p, hp⟩ := InsertionMap.has_iff.mp h
    exact InsertionMap.has_iff.mpr ⟨p, hget rc p hp⟩
  constructor
  · rw [htrace, hrc]; exact hb.given
  · rw [htrace]; exact hb.once
  · rw [htrace, hrc]; exact hb.settled_le
  · intro rc h; rw [hrc]; exact hb.le rc (hhas rc h)
  · intro rc h; rw [htrace]; exact hb.unsettled rc (hhas rc h)
  · intro rc p q h hq; rw [htrace] at hq; exact hb.asks rc p q (hget rc p h) hq
  · intro rc p h; exact hb.plain rc p (hget rc p h)

theorem Books.registered (hb : Books t) {p : PendingCommand ρ} (hplain : p.Plain)
    (hrc : t'.nextRC = t.nextRC + 1) (hpending : t'.pending = t.pending.set (t.nextRC + 1) p)
    (htrace : t'.trace = t.trace ++ [.registered (t.nextRC + 1) p]) : Books t' := by
  have hcase : ∀ rc q, t'.pending.get? rc = some q →
      rc = t.nextRC + 1 ∧ q = p ∨ t.pending.get? rc = some q ∧ rc ≤ t.nextRC := by
    intro rc q h
    rw [hpending, InsertionMap.get?_set] at h
    split_ifs at h with hk
    · exact Or.inl ⟨hk.symm, (Option.some.inj h).symm⟩
    · exact Or.inr ⟨h, hb.le rc (InsertionMap.has_iff.mpr ⟨q, h⟩)⟩
  constructor
  · rw [htrace, List.filterMap_append, hb.given, hrc, List.range'_concat]
    simp [Tracked.givenRC, Nat.add_comm]
  · rw [htrace, List.filterMap_append]
    show (_ ++ []).Nodup
    rw [List.append_nil]
    exact hb.once
  · intro rc r h
    rw [htrace] at h
    have := hb.settled_le rc r (by simpa using h)
    omega
  · intro rc h
    obtain ⟨q, hq⟩ := InsertionMap.has_iff.mp h
    rcases hcase rc q hq with ⟨rfl, -⟩ | ⟨-, hle⟩
    · exact hrc.ge
    · omega
  · intro rc h r hr
    obtain ⟨q, hq⟩ := InsertionMap.has_iff.mp h
    have hr : .settled rc r ∈ t.trace := by simpa [htrace] using hr
    rcases hcase rc q hq with ⟨rfl, -⟩ | ⟨hq, -⟩
    · have := hb.settled_le _ r hr
      omega
    · exact hb.unsettled rc (InsertionMap.has_iff.mpr ⟨q, hq⟩) r hr
  · intro rc q q' hq hq'
    rw [htrace, List.mem_append, List.mem_singleton] at hq'
    rcases hcase rc q hq with ⟨rfl, rfl⟩ | ⟨hq, hle⟩
    · rcases hq' with hq' | hq'
      · have := hb.registered_le hq'
        omega
      · obtain ⟨-, rfl⟩ := Tracked.registered.inj hq'
        exact ⟨rfl, rfl, rfl⟩
    · rcases hq' with hq' | hq'
      · exact hb.asks rc q q' hq hq'
      · obtain ⟨rfl, -⟩ := Tracked.registered.inj hq'
        omega
  · intro rc q hq
    rcases hcase rc q hq with ⟨-, rfl⟩ | ⟨hq, -⟩
    · exact hplain
    · exact hb.plain rc q hq

theorem Books.answered (hb : Books t) {rc : Nat} {p p' : PendingCommand ρ}
    (hget : t.pending.get? rc = some p) (hasks : p'.Asks p) (hawaits : p.awaits.isSome = true)
    (hpending : t'.pending = t.pending.set rc p') (hrc : t'.nextRC = t.nextRC)
    (htrace : t'.trace = t.trace) : Books t' := by
  have hhas : ∀ rc', t'.pending.has rc' = true → t.pending.has rc' = true := by
    intro rc' h
    obtain ⟨q, hq⟩ := InsertionMap.has_iff.mp h
    rw [hpending, InsertionMap.get?_set] at hq
    split_ifs at hq with hk
    · exact hk ▸ InsertionMap.has_iff.mpr ⟨p, hget⟩
    · exact InsertionMap.has_iff.mpr ⟨q, hq⟩
  constructor
  · rw [htrace, hrc]; exact hb.given
  · rw [htrace]; exact hb.once
  · rw [htrace, hrc]; exact hb.settled_le
  · intro rc' h; rw [hrc]; exact hb.le rc' (hhas rc' h)
  · intro rc' h; rw [htrace]; exact hb.unsettled rc' (hhas rc' h)
  · intro rc' q q' hq hq'
    rw [htrace] at hq'
    rw [hpending, InsertionMap.get?_set] at hq
    split_ifs at hq with hk
    · obtain rfl := Option.some.inj hq
      have hq' := hb.asks rc p q' hget (hk ▸ hq')
      exact ⟨hasks.spec.trans hq'.spec, hasks.correlation.trans hq'.correlation,
        hasks.echo.trans hq'.echo⟩
    · exact hb.asks rc' q q' hq hq'
  · intro rc' q hq
    rw [hpending, InsertionMap.get?_set] at hq
    split_ifs at hq with hk
    · obtain rfl := Option.some.inj hq
      intro hnone
      rw [hasks.awaits] at hnone
      rw [hnone] at hawaits
      exact absurd hawaits (by simp)
    · exact hb.plain rc' q hq

/-- What settles commands in flight, which are so no more, keeps the books right. -/
theorem Books.settled (hb : Books t) {outs : List (Tracked ρ)} (hrc : t'.nextRC = t.nextRC)
    (hget : ∀ rc p, t'.pending.get? rc = some p → t.pending.get? rc = some p)
    (htrace : t'.trace = t.trace ++ outs)
    (houts : ∀ o ∈ outs, ∃ rc r, o = .settled rc r ∧ t.pending.has rc = true ∧
      t'.pending.has rc = false)
    (honce : (outs.filterMap Tracked.settledRC).Nodup) : Books t' := by
  have hhas : ∀ rc, t'.pending.has rc = true → t.pending.has rc = true := by
    intro rc h
    obtain ⟨p, hp⟩ := InsertionMap.has_iff.mp h
    exact InsertionMap.has_iff.mpr ⟨p, hget rc p hp⟩
  have hsettled : ∀ rc r, .settled rc r ∈ outs →
      t.pending.has rc = true ∧ t'.pending.has rc = false := by
    intro rc r h
    obtain ⟨rc', r', heq, hin, hout⟩ := houts _ h
    obtain ⟨rfl, -⟩ := Tracked.settled.inj heq
    exact ⟨hin, hout⟩
  have hgiven : outs.filterMap Tracked.givenRC = [] := by
    rw [List.filterMap_eq_nil_iff]
    intro o ho
    obtain ⟨rc, r, rfl, -⟩ := houts o ho
    rfl
  constructor
  · rw [htrace, List.filterMap_append, hb.given, hgiven, List.append_nil, hrc]
  · rw [htrace, List.filterMap_append, List.nodup_append]
    refine ⟨hb.once, honce, ?_⟩
    intro rc hold rc' hnew heq
    subst heq
    obtain ⟨o, ho, hrc⟩ := List.mem_filterMap.mp hold
    obtain ⟨o', ho', hrc'⟩ := List.mem_filterMap.mp hnew
    obtain ⟨rc', r', rfl, hin, -⟩ := houts o' ho'
    obtain rfl : rc' = rc := by simpa [Tracked.settledRC] using hrc'
    cases o with
    | registered => simp [Tracked.settledRC] at hrc
    | settled rc'' r =>
      obtain rfl : rc'' = rc' := by simpa [Tracked.settledRC] using hrc
      exact hb.unsettled rc'' hin r ho
  · intro rc r h
    rw [hrc]
    rw [htrace, List.mem_append] at h
    rcases h with h | h
    · exact hb.settled_le rc r h
    · exact hb.le rc (hsettled rc r h).1
  · intro rc h; rw [hrc]; exact hb.le rc (hhas rc h)
  · intro rc h r hr
    rw [htrace, List.mem_append] at hr
    rcases hr with hr | hr
    · exact hb.unsettled rc (hhas rc h) r hr
    · rw [(hsettled rc r hr).2] at h
      exact absurd h (by simp)
  · intro rc p q h hq
    rw [htrace, List.mem_append] at hq
    rcases hq with hq | hq
    · exact hb.asks rc p q (hget rc p h) hq
    · obtain ⟨rc', r, heq, -⟩ := houts _ hq
      exact absurd heq (by simp)
  · intro rc p h; exact hb.plain rc p (hget rc p h)

/-- **A change keeps the books right.** -/
theorem Change.books (h : Change op t t') (hb : Books t) : Books t' := by
  obtain ⟨outs, hgrown, hsettles, honce⟩ := h.trace_grows
  have hdelete : ∀ rc' rc q, (t.pending.delete rc').get? rc = some q →
      t.pending.get? rc = some q := by
    intro rc' rc q hq
    rw [InsertionMap.get?_delete] at hq
    split_ifs at hq
    exact hq
  cases h with
  | quiet hpending hrc htrace => exact hb.of_subset hrc (by simp [hpending]) htrace
  | registered p hplain hrc hpending htrace => exact hb.registered hplain hrc hpending htrace
  | unregistered rc _ hpending hrc htrace =>
    exact hb.of_subset hrc (by rw [hpending]; exact hdelete rc) htrace
  | answered rc p p' hget hasks hawaits hpending hrc htrace =>
    exact hb.answered hget hasks hawaits hpending hrc htrace
  | settled rc p result hget hpending hrc htrace =>
    obtain rfl := List.append_cancel_left (hgrown.symm.trans htrace)
    refine hb.settled hrc (by rw [hpending]; exact hdelete rc) htrace ?_ honce
    intro o ho
    obtain rfl := List.mem_singleton.mp ho
    exact ⟨rc, result, rfl, hsettles rc result ho⟩
  | reset err hpending hrc htrace =>
    obtain rfl := List.append_cancel_left (hgrown.symm.trans htrace)
    refine hb.settled hrc (by simp [hpending]) htrace ?_ honce
    intro o ho
    obtain ⟨e, he, rfl⟩ := List.mem_map.mp ho
    exact ⟨e.1, _, rfl, hsettles e.1 _ ho⟩

section Step

variable [Fields ρ]

/-! ### Operations -/

theorem awaits_of_takes {p : PendingCommand ρ} {name : Str} {params : ρ}
    (h : p.takes name params = true) : p.awaits.isSome = true := by
  unfold PendingCommand.takes at h
  cases hp : p.awaits with
  | none => rw [hp] at h; exact absurd h (by simp)
  | some c => rfl

/-- A row given to a command whose `error` has come settles it. -/
theorem offerCorrelated_settles {name : Str} {params : ρ} {rc : Nat} {p : PendingCommand ρ}
    {held : CommandResult ρ}
    (hfind : (t.pending.entries.find? fun e => e.2.takes name params) = some (rc, p))
    (hok : p.failsOn name params = false) (hsettled : p.settled = some held) :
    t.offerCorrelated name params =
      t.settle rc ⟨none, held.data ++ (p.correlated ++ [params])⟩ := by
  unfold offerCorrelated
  rw [hfind]
  show (if p.failsOn name params then _ else _) = _
  rw [if_neg (by simp [hok])]
  simp only [hsettled]

/-- A row given to a command whose `error` is still to come is kept for it. -/
theorem offerCorrelated_keeps {name : Str} {params : ρ} {rc : Nat} {p : PendingCommand ρ}
    (hfind : (t.pending.entries.find? fun e => e.2.takes name params) = some (rc, p))
    (hok : p.failsOn name params = false) (hsettled : p.settled = none) :
    t.offerCorrelated name params =
      { t with pending := t.pending.set rc { p with correlated := p.correlated ++ [params] } } := by
  unfold offerCorrelated
  rw [hfind]
  show (if p.failsOn name params then _ else _) = _
  rw [if_neg (by simp [hok])]
  simp only [hsettled]

/-- **What an offer does**: nothing, or it settles the first command it answers or is
kept for it. -/
theorem offerCorrelated_cases (t : CommandTracker ρ) (name : Str) (params : ρ) :
    t.offerCorrelated name params = t ∨
    ∃ rc p, t.pending.get? rc = some p ∧ p.takes name params = true ∧
      (t.offerCorrelated name params = t.settle rc ⟨some (failureOf params), []⟩ ∨
      (∃ held, p.settled = some held ∧ t.offerCorrelated name params =
        t.settle rc ⟨none, held.data ++ (p.correlated ++ [params])⟩) ∨
      (p.settled = none ∧ t.offerCorrelated name params = { t with
        pending := t.pending.set rc { p with correlated := p.correlated ++ [params] } })) := by
  cases hfind : t.pending.entries.find? fun e => e.2.takes name params with
  | none =>
    left
    unfold offerCorrelated
    rw [hfind]
  | some e =>
    obtain ⟨rc, p⟩ := e
    obtain ⟨hget, htakes⟩ := InsertionMap.get?_of_find? hfind
    refine Or.inr ⟨rc, p, hget, htakes, ?_⟩
    cases hok : p.failsOn name params with
    | true =>
      left
      unfold offerCorrelated
      rw [hfind]
      exact if_pos hok
    | false =>
      right
      cases hsettled : p.settled with
      | some held => exact Or.inl ⟨held, rfl, offerCorrelated_settles hfind hok hsettled⟩
      | none =>
        refine Or.inr ⟨rfl, ?_⟩
        rw [offerCorrelated_keeps hfind hok hsettled, hsettled]

theorem offerCorrelated_change (t : CommandTracker ρ) (name : Str) (params : ρ) :
    Change (.offerCorrelated name params) t (t.offerCorrelated name params) := by
  rcases offerCorrelated_cases t name params with
    h | ⟨rc, p, hget, htakes, h | ⟨held, -, h⟩ | ⟨-, h⟩⟩
  · rw [h]; exact .quiet rfl rfl rfl
  · rw [h]; exact .settled rc p _ hget rfl rfl rfl
  · rw [h]; exact .settled rc p _ hget rfl rfl rfl
  · rw [h]
    refine .answered rc p _ hget ?_ (awaits_of_takes htakes) rfl rfl rfl
    exact ⟨rfl, rfl, rfl⟩

/-- The rows of the buffer that answer a command. -/
def answersOf (t : CommandTracker ρ) (p : PendingCommand ρ) (own : Nat) : List ρ :=
  (t.buffered.filter (p.answers own)).map BufferedRow.params

/-- **What an `error` line does**: it empties the buffer, and settles its command or
holds its result. -/
theorem resolve_cases (t : CommandTracker ρ) (rc : Nat) (err : Option Failure) (own : Nat) :
    (t.pending.get? rc = none ∧ t.resolve rc err own = { t with buffered := [] }) ∨
    ∃ p, t.pending.get? rc = some p ∧
      ((∃ e, err = some e ∧ t.resolve rc err own =
        { t with buffered := [] }.settle rc ⟨some e, t.answersOf p own⟩) ∨
      (err = none ∧ p.awaits.isSome = true ∧ p.correlated = [] ∧ t.resolve rc err own =
        { t with buffered := [], pending :=
          t.pending.set rc { p with settled := some ⟨none, t.answersOf p own⟩ } }) ∨
      (err = none ∧ ¬ (p.awaits.isSome = true ∧ p.correlated = []) ∧ t.resolve rc err own =
        { t with buffered := [] }.settle rc ⟨none, t.answersOf p own ++ p.correlated⟩)) := by
  unfold resolve
  cases hget : t.pending.get? rc with
  | none => exact Or.inl ⟨rfl, by simp only [hget]⟩
  | some p =>
    refine Or.inr ⟨p, rfl, ?_⟩
    cases err with
    | some e => exact Or.inl ⟨e, rfl, by simp only [hget]; rfl⟩
    | none =>
      right
      simp only [hget, List.length_eq_zero_iff]
      by_cases hheld : p.awaits.isSome = true ∧ p.correlated = []
      · exact Or.inl ⟨trivial, hheld.1, hheld.2, if_pos hheld⟩
      · exact Or.inr ⟨trivial, hheld, if_neg hheld⟩

theorem resolve_change (t : CommandTracker ρ) (rc : Nat) (err : Option Failure) (own : Nat) :
    Change (.resolve rc err own) t (t.resolve rc err own) := by
  rcases resolve_cases t rc err own with
    ⟨-, h⟩ | ⟨p, hget, ⟨e, -, h⟩ | ⟨-, hawaits, -, h⟩ | ⟨-, -, h⟩⟩
  · rw [h]; exact .quiet rfl rfl rfl
  · rw [h]; exact .settled rc p _ hget rfl rfl rfl
  · rw [h]
    refine .answered rc p _ hget ?_ hawaits rfl rfl rfl
    exact ⟨rfl, rfl, rfl⟩
  · rw [h]; exact .settled rc p _ hget rfl rfl rfl

/-- **Every operation is a change of these.** -/
theorem step_change (t : CommandTracker ρ) (op : Op ρ) : Change op t (t.step op) := by
  cases op with
  | register spec correlation echo =>
    exact .registered _ (fun _ => ⟨rfl, rfl⟩) rfl rfl rfl
  | unregister rc => exact .unregistered rc rfl rfl rfl rfl
  | signalWelcomeComplete => exact .quiet rfl rfl rfl
  | buffer params source =>
    show Change _ t (t.buffer params source)
    unfold buffer
    split_ifs
    · exact .quiet rfl rfl rfl
    · exact .quiet rfl rfl rfl
    · exact .quiet rfl rfl rfl
  | offerCorrelated name params => exact offerCorrelated_change t name params
  | resolve rc err own => exact resolve_change t rc err own
  | discardBuffer => exact .quiet rfl rfl rfl
  | reset err => exact .reset err rfl rfl rfl

theorem books_after (ops : List (Op ρ)) : Books (after ops) := by
  apply run_invariant (I := Books)
  · intro t op hb
    exact (step_change t op).books hb
  · exact books_new

/-! ### No settling once it is over -/

/-- A return code that was given out and is not in flight will not settle again. -/
theorem Books.over (hb : Books t) {rc : Nat} (hle : rc ≤ t.nextRC)
    (hgone : t.pending.has rc = false) (ops : List (Op ρ)) :
    ∃ outs, (run step t ops).trace = t.trace ++ outs ∧ ∀ r, .settled rc r ∉ outs := by
  induction ops generalizing t with
  | nil => exact ⟨[], by simp [run], by simp⟩
  | cons op ops ih =>
    have hchange := step_change t op
    obtain ⟨outs, htrace, hsettles, -⟩ := hchange.trace_grows
    have hstays : (t.step op).pending.has rc = false ∧ rc ≤ (t.step op).nextRC := by
      rw [InsertionMap.has_eq_false] at hgone ⊢
      cases hchange with
      | quiet hpending hrc => exact ⟨by rw [hpending, hgone], by omega⟩
      | registered p _ hrc hpending =>
        refine ⟨?_, by omega⟩
        rw [hpending, InsertionMap.get?_set_ne _ _ (by omega), hgone]
      | unregistered rc' _ hpending hrc =>
        exact ⟨by rw [hpending, InsertionMap.get?_delete, hgone, ite_self], by omega⟩
      | answered rc' p p' hget _ _ hpending hrc =>
        refine ⟨?_, by omega⟩
        rw [hpending, InsertionMap.get?_set, if_neg, hgone]
        rintro rfl
        rw [hgone] at hget
        exact absurd hget (by simp)
      | settled rc' p _ _ hpending hrc =>
        exact ⟨by rw [hpending, InsertionMap.get?_delete, hgone, ite_self], by omega⟩
      | reset err hpending hrc => exact ⟨by rw [hpending]; rfl, by omega⟩
    obtain ⟨rest, hrest, hnone⟩ := ih (hchange.books hb) hstays.2 hstays.1
    refine ⟨outs ++ rest, ?_, ?_⟩
    · show (run step (t.step op) ops).trace = _
      rw [hrest, htrace, List.append_assoc]
    · intro r hr
      rcases List.mem_append.mp hr with hr | hr
      · rw [(hsettles rc r hr).1] at hgone
        exact absurd hgone (by simp)
      · exact hnone r hr

end Step

end CommandTracker

end Client

end Teamspeak
