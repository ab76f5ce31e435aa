import Teamspeak.Client.Commands.Books
import Teamspeak.Lib.Line

/-!
# Commands that await the same row

A row names the key it answers, not the command, so commands in flight with the same
correlated spec and the same value are told apart by the tracker's order alone.

* `Stands`, `arrive_stands`: the tracker gives rows to these commands as a `Line`
  gives answers to requests.
* `answered_once_iff`: each gets one row if and only if no row arrives while the
  `error` of a command that has one is still to come.
* `first_takes_two`: two rows ahead of both `error` lines go to the first command.
-/

namespace Teamspeak

namespace Client

open Line

variable {ρ : Type*}

namespace CommandTracker

/-- A command has settled once, successfully and with one row, and is in flight no
more. -/
def AnsweredOnce (t : CommandTracker ρ) (rc : Nat) : Prop :=
  (∃ params, t.trace.filter (fun o => o.settledRC = some rc) = [.settled rc ⟨none, [params]⟩]) ∧
    t.pending.has rc = false

/-- The spec of a command that is answered by correlated notifications. -/
def awaiting (c : Correlated) : Option ResponseSpec := some { correlated := some c }

/-- The command of a request in line: `base` is the last return code before the line. -/
def command (c : Correlated) (v : Str) (base : Nat) (r : Request (Str × ρ)) :
    Nat × PendingCommand ρ :=
  (base + 1 + r.id,
    { spec := awaiting c, correlation := some v, echo := none,
      correlated := r.answers.map Prod.snd,
      settled := if r.closed then some ⟨none, []⟩ else none })

/-- How a request that is done has settled. -/
def outcome (base : Nat) (d : Nat × List (Str × ρ)) : Tracked ρ :=
  .settled (base + 1 + d.1) ⟨none, d.2.map Prod.snd⟩

/-- The tracker stands where the line does: `others` are the commands in flight besides
those in line, and `before` is the trace up to them. -/
structure Stands (c : Correlated) (v : Str) (base : Nat) (others : List (Nat × PendingCommand ρ))
    (before : List (Tracked ρ)) (t : CommandTracker ρ) (l : State (Str × ρ)) : Prop where
  pending : t.pending.entries = others ++ l.waiting.map (command c v base)
  trace : t.trace = before ++ l.done.map (outcome base)
  named : ∀ row ∈ t.buffered, row.source ≠ []
  nodup : (l.waiting.map Request.id).Nodup

variable [Fields ρ]

/-- What a row, with the notification's name, or the `error` line of a command in line
does. -/
def arrive (own base : Nat) (t : CommandTracker ρ) : Arrival (Str × ρ) → CommandTracker ρ
  | .answer row => t.notified row.1 row.2
  | .close i => t.resolve (base + 1 + i) none own

/-- A row that answers the commands in line successfully. -/
structure Answering (c : Correlated) (v : Str) (row : Str × ρ) : Prop where
  named : row.1 ≠ []
  notification : row.1 ∈ c.notifications
  key : field? row.2 c.key = some v
  succeeds : ¬ (c.failure = some row.1 ∧
    (field? row.2 (.of "status")).getD (.of "0") ≠ .of "0")

variable {c : Correlated} {v : Str} {base own : Nat} {others : List (Nat × PendingCommand ρ)}
  {before : List (Tracked ρ)} {t : CommandTracker ρ} {l : State (Str × ρ)}

theorem command_takes {row : Str × ρ} (h : Answering c v row) (r : Request (Str × ρ)) :
    (command c v base r).2.takes row.1 row.2 = true := by
  show decide _ = true
  rw [decide_eq_true_eq]
  exact ⟨by simpa using h.notification, h.key⟩

theorem command_failsOn {row : Str × ρ} (h : Answering c v row) (r : Request (Str × ρ)) :
    (command c v base r).2.failsOn row.1 row.2 = false := by
  show decide _ = false
  rw [decide_eq_false_iff_not]
  exact h.succeeds

/-- A row is no inline answer of a command in line. -/
theorem command_answers (r : Request (Str × ρ)) {row : BufferedRow ρ} (h : row.source ≠ []) :
    (command c v base r).2.answers own row = false := by
  show (if row.source = [] then true else _) = false
  rw [if_neg h]
  rfl

/-! ### Rows -/

/-- A row that no other command in flight takes goes to the first in line. -/
theorem find_takes {row : Str × ρ} (h : Stands c v base others before t l)
    (hrow : Answering c v row) (hothers : ∀ e ∈ others, e.2.takes row.1 row.2 = false) :
    (t.pending.entries.find? fun e => e.2.takes row.1 row.2) =
      l.waiting.head?.map (command c v base) := by
  have hnone : (others.find? fun e => e.2.takes row.1 row.2) = none := by
    rw [List.find?_eq_none]
    intro e he
    rw [hothers e he]
    simp
  rw [h.pending, List.find?_append, hnone, Option.none_or]
  cases l.waiting with
  | nil => rfl
  | cons r rs =>
    rw [List.map_cons, List.find?_cons]
    simp only [command_takes hrow r]
    rfl

omit [Fields ρ] in
theorem buffer_frame (t : CommandTracker ρ) (params : ρ) (source : Str) :
    (t.buffer params source).pending = t.pending ∧ (t.buffer params source).trace = t.trace ∧
      ∀ row ∈ (t.buffer params source).buffered, row ∈ t.buffered ∨ row = ⟨source, params⟩ := by
  unfold buffer
  split_ifs
  · exact ⟨rfl, rfl, fun row h => Or.inl h⟩
  · exact ⟨rfl, rfl, fun row h => Or.inl h⟩
  · exact ⟨rfl, rfl, fun row h => by simpa using h⟩

theorem expects_of_mem {name : Str} {e : Nat × PendingCommand ρ} (he : e ∈ t.pending.entries)
    {params : ρ} (htakes : e.2.takes name params = true) : t.expects name = true := by
  unfold expects
  rw [List.any_eq_true]
  refine ⟨e, he, ?_⟩
  unfold PendingCommand.takes PendingCommand.awaits at htakes
  cases hspec : e.2.spec with
  | none => rw [hspec] at htakes; exact absurd htakes (by simp)
  | some spec =>
    rw [hspec] at htakes
    cases hc : spec.correlated with
    | none => simp [hc] at htakes
    | some c =>
      cases hv : e.2.correlation with
      | none => simp [hc, hv] at htakes
      | some v =>
        have hname : name ∈ c.notifications := by
          simp [hc, hv] at htakes
          exact htakes.1
        simp [hc, hname]

omit [Fields ρ] in
/-- A command in line is given something new where it stands. -/
theorem pending_set (h : Stands c v base others before t l) (hle : ∀ e ∈ others, e.1 ≤ base)
    {r : Request (Str × ρ)} (hr : r ∈ l.waiting) (r' : Request (Str × ρ)) (hid : r'.id = r.id) :
    (t.pending.set (base + 1 + r.id) (command c v base r').2).entries =
      others ++ (l.waiting.map fun q => if q.id = r.id then r' else q).map (command c v base) := by
  have hmem : command c v base r ∈ t.pending.entries := by
    rw [h.pending]
    exact List.mem_append_right _ (List.mem_map_of_mem hr)
  rw [InsertionMap.entries_set (InsertionMap.mem_entries.mp hmem), h.pending, List.map_append,
    List.map_map, List.map_map]
  congr 1
  · refine (List.map_congr_left ?_).trans (List.map_id _)
    intro e he
    have := hle e he
    rw [if_neg (by omega)]
    rfl
  · apply List.map_congr_left
    intro q _
    by_cases hq : q.id = r.id
    · simp [command, hq, hid]
    · have hne : base + 1 + q.id ≠ base + 1 + r.id := by omega
      simp [command, hq]

omit [Fields ρ] in
theorem pending_delete (h : Stands c v base others before t l) (hle : ∀ e ∈ others, e.1 ≤ base)
    (id : Nat) :
    (t.pending.delete (base + 1 + id)).entries =
      others ++ (l.waiting.filter fun q => q.id ≠ id).map (command c v base) := by
  show t.pending.entries.filter _ = _
  rw [h.pending, List.filter_append, List.filter_map]
  congr 1
  · rw [List.filter_eq_self]
    intro e he
    have := hle e he
    simp only [ne_eq, decide_not, Bool.not_eq_eq_eq_not, Bool.not_true, decide_eq_false_iff_not]
    omega
  · congr 1
    apply List.filter_congr
    intro q _
    show decide (base + 1 + q.id ≠ base + 1 + id) = decide (q.id ≠ id)
    rw [decide_eq_decide]
    omega

/-! ### The tracker and the line -/

theorem offerCorrelated_stands (h : Stands c v base others before t l)
    (hle : ∀ e ∈ others, e.1 ≤ base) {row : Str × ρ} (hrow : Answering c v row)
    (hothers : ∀ e ∈ others, e.2.takes row.1 row.2 = false) :
    Stands c v base others before (t.offerCorrelated row.1 row.2) (l.answer row) := by
  have hfind := find_takes h hrow hothers
  have hnodup : ((l.answer row).waiting.map Request.id).Nodup := nodup_step h.nodup (.answer row)
  cases hw : l.waiting with
  | nil =>
    have hsame : l.answer row = l := by
      unfold State.answer
      rw [hw]
    rw [hw] at hfind
    unfold offerCorrelated
    rw [hfind, hsame]
    exact h
  | cons r rs =>
    have hfirst : (t.pending.entries.find? fun e => e.2.takes row.1 row.2) =
        some (command c v base r) := by
      rw [hfind, hw]
      rfl
    have hok : (command c v base r).2.failsOn row.1 row.2 = false := command_failsOn hrow r
    have hr : r ∈ l.waiting := by rw [hw]; exact List.mem_cons_self
    have hids : ∀ q ∈ rs, q.id ≠ r.id := by
      intro q hq heq
      have hn := h.nodup
      rw [hw, List.map_cons, List.nodup_cons] at hn
      exact hn.1 (heq ▸ List.mem_map_of_mem hq)
    have hanswer : l.answer row = if r.closed then ⟨rs, l.done ++ [(r.id, r.answers ++ [row])]⟩
        else ⟨{ r with answers := r.answers ++ [row] } :: rs, l.done⟩ := by
      unfold State.answer
      rw [hw]
    by_cases hclosed : r.closed = true
    · rw [if_pos hclosed] at hanswer
      rw [hanswer] at hnodup ⊢
      rw [offerCorrelated_settles hfirst hok (if_pos hclosed)]
      constructor
      · show (t.pending.delete (base + 1 + r.id)).entries = others ++ rs.map (command c v base)
        have hfilter : rs.filter (fun q => q.id ≠ r.id) = rs := by
          rw [List.filter_eq_self]
          intro q hq
          simpa using hids q hq
        rw [pending_delete h hle, hw, List.filter_cons_of_neg (by simp), hfilter]
      · show t.trace ++ [Tracked.settled _ _] = before ++ (l.done ++ [_]).map (outcome base)
        rw [h.trace, List.map_append, List.append_assoc]
        simp [outcome]
      · exact h.named
      · exact hnodup
    · rw [if_neg hclosed] at hanswer
      rw [hanswer] at hnodup ⊢
      rw [offerCorrelated_keeps hfirst hok (if_neg hclosed)]
      constructor
      · have hset := pending_set h hle hr { r with answers := r.answers ++ [row] } rfl
        have hrest : rs.map (fun q => if q.id = r.id then
            { r with answers := r.answers ++ [row] } else q) = rs := by
          refine (List.map_congr_left ?_).trans (List.map_id _)
          intro q hq
          rw [if_neg (hids q hq)]
          rfl
        rw [hw, List.map_cons, if_pos rfl, hrest] at hset
        refine Eq.trans ?_ hset
        simp [command]
      · exact h.trace
      · exact h.named
      · exact hnodup

theorem notified_stands (h : Stands c v base others before t l)
    (hle : ∀ e ∈ others, e.1 ≤ base) {row : Str × ρ} (hrow : Answering c v row)
    (hothers : ∀ e ∈ others, e.2.takes row.1 row.2 = false) :
    Stands c v base others before (t.notified row.1 row.2) (l.answer row) := by
  unfold notified
  split_ifs with hexpects
  · obtain ⟨hpending, htrace, hbuffered⟩ := buffer_frame t row.2 row.1
    refine offerCorrelated_stands ⟨?_, ?_, ?_, h.nodup⟩ hle hrow hothers
    · rw [hpending]; exact h.pending
    · rw [htrace]; exact h.trace
    · intro row' hrow'
      rcases hbuffered row' hrow' with hold | rfl
      · exact h.named row' hold
      · exact hrow.named
  · -- Nobody in line expects it, so nobody is in line.
    have hnil : l.waiting = [] := by
      rw [List.eq_nil_iff_forall_not_mem]
      intro r hr
      apply hexpects
      have hmem : command c v base r ∈ t.pending.entries := by
        rw [h.pending]
        exact List.mem_append_right _ (List.mem_map_of_mem hr)
      exact expects_of_mem hmem (command_takes hrow r)
    have hsame : l.answer row = l := by
      unfold State.answer
      rw [hnil]
    rw [hsame]
    exact h

theorem resolve_stands (h : Stands c v base others before t l)
    (hle : ∀ e ∈ others, e.1 ≤ base) (i : Nat) :
    Stands c v base others before (t.resolve (base + 1 + i) none own) (l.close i) := by
  have hnodup : ((l.close i).waiting.map Request.id).Nodup := nodup_step h.nodup (.close i)
  unfold resolve
  cases hfind : l.waiting.find? fun r => r.id = i with
  | none =>
    have hget : t.pending.get? (base + 1 + i) = none := by
      rw [InsertionMap.get?_eq_none, h.pending, List.map_append, List.mem_append, not_or]
      refine ⟨?_, ?_⟩
      · intro hmem
        obtain ⟨e, he, heq⟩ := List.mem_map.mp hmem
        have := hle e he
        omega
      · intro hmem
        rw [List.map_map] at hmem
        obtain ⟨r, hr, heq⟩ := List.mem_map.mp hmem
        have hid : base + 1 + r.id = base + 1 + i := heq
        have hne := List.find?_eq_none.mp hfind r hr
        simp at hne
        omega
    have hsame : l.close i = l := by
      unfold State.close
      rw [hfind]
    rw [hsame]
    simp only [hget]
    exact ⟨h.pending, h.trace, by simp, h.nodup⟩
  | some r =>
    have hr := List.mem_of_find?_eq_some hfind
    have hid : r.id = i := by simpa using List.find?_some hfind
    subst hid
    have hmem : command c v base r ∈ t.pending.entries := by
      rw [h.pending]
      exact List.mem_append_right _ (List.mem_map_of_mem hr)
    have hget : t.pending.get? (base + 1 + r.id) = some (command c v base r).2 :=
      InsertionMap.mem_entries.mp hmem
    have hdata : (t.buffered.filter ((command c v base r).2.answers own)).map
        BufferedRow.params = [] := by
      rw [List.map_eq_nil_iff, List.filter_eq_nil_iff]
      intro row hrow
      rw [command_answers r (h.named row hrow)]
      simp
    have hclose : l.close r.id = if r.answers = [] then
        { l with waiting :=
          l.waiting.map fun q => if q.id = r.id then { q with closed := true } else q }
        else ⟨l.waiting.filter fun q => q.id ≠ r.id, l.done ++ [(r.id, r.answers)]⟩ := by
      unfold State.close
      rw [hfind]
    rw [hclose] at hnodup ⊢
    simp only [hget, hdata]
    by_cases hnone : r.answers = []
    · have hlen : (command c v base r).2.awaits.isSome = true ∧
          (command c v base r).2.correlated.length = 0 := by
        refine ⟨rfl, ?_⟩
        show (r.answers.map Prod.snd).length = 0
        rw [hnone]
        rfl
      rw [if_pos hnone] at hnodup ⊢
      rw [if_pos hlen]
      constructor
      · -- The request closed is the only one with its number.
        have hset := pending_set h hle hr { r with closed := true } rfl
        refine Eq.trans ?_ (hset.trans ?_)
        · simp [command, hnone]
        · congr 2
          apply List.map_congr_left
          intro q hq
          by_cases hqid : q.id = r.id
          · obtain rfl : q = r := List.inj_on_of_nodup_map h.nodup hq hr hqid
            rfl
          · rw [if_neg hqid, if_neg hqid]
      · exact h.trace
      · simp
      · exact hnodup
    · have hlen : ¬ ((command c v base r).2.awaits.isSome = true ∧
          (command c v base r).2.correlated.length = 0) := by
        rintro ⟨-, hzero⟩
        apply hnone
        simpa [command] using hzero
      rw [if_neg hnone] at hnodup ⊢
      rw [if_neg hlen]
      constructor
      · exact pending_delete (t := { t with buffered := [] }) ⟨h.pending, h.trace, by simp, h.nodup⟩
          hle r.id
      · show t.trace ++ [Tracked.settled _ _] = before ++ (l.done ++ [_]).map (outcome base)
        rw [h.trace, List.map_append, List.append_assoc]
        rfl
      · exact fun row hrow => absurd hrow List.not_mem_nil
      · exact hnodup

theorem arrive_stands (h : Stands c v base others before t l) (hle : ∀ e ∈ others, e.1 ≤ base)
    {e : Arrival (Str × ρ)} (hrow : ∀ row, e = .answer row →
      Answering c v row ∧ ∀ o ∈ others, o.2.takes row.1 row.2 = false) :
    Stands c v base others before (arrive own base t e) (Line.step l e) := by
  cases e with
  | answer row =>
    obtain ⟨hanswering, hothers⟩ := hrow row rfl
    exact notified_stands h hle hanswering hothers
  | close i => exact resolve_stands h hle i

/-- **The tracker stands where the line does**, after any arrivals. -/
theorem run_stands (h : Stands c v base others before t l) (hle : ∀ e ∈ others, e.1 ≤ base)
    {es : List (Arrival (Str × ρ))} (hrows : ∀ row, .answer row ∈ es →
      Answering c v row ∧ ∀ o ∈ others, o.2.takes row.1 row.2 = false) :
    Stands c v base others before (run (arrive own base) t es) (run Line.step l es) := by
  induction es generalizing t l with
  | nil => exact h
  | cons e es ih =>
    apply ih
    · apply arrive_stands h hle
      rintro row rfl
      exact hrows row List.mem_cons_self
    · intro row hrow
      exact hrows row (List.mem_cons_of_mem _ hrow)

/-- `n` commands registered one after another stand in line. -/
theorem registered_stands (hb : Books t) (hnamed : ∀ row ∈ t.buffered, row.source ≠ [])
    (hkey : c.key ≠ .of "return_code") (n : Nat) :
    let t' := run step t (List.replicate n (.register (awaiting c) (some v) none))
    ∃ before, t'.nextRC = t.nextRC + n ∧
      Stands c v t.nextRC t.pending.entries (t.trace ++ before) t' (opened n) ∧
      before.filterMap Tracked.settledRC = [] := by
  induction n with
  | zero => exact ⟨[], rfl, ⟨by simp [opened], by simp [opened], hnamed, by simp [opened]⟩, rfl⟩
  | succ n ih =>
    obtain ⟨before, hrc, hstands, hquiet⟩ := ih
    rw [List.replicate_succ', run_concat]
    generalize run step t (List.replicate n (.register (awaiting c) (some v) none)) = t' at *
    have hcorrelation : correlationOf (awaiting c) (some v) (t'.nextRC + 1) = some v :=
      if_neg hkey
    have hfresh : t'.pending.get? (t'.nextRC + 1) = none := by
      rw [InsertionMap.get?_eq_none, hstands.pending, List.map_append, List.mem_append, not_or]
      refine ⟨?_, ?_⟩
      · intro hmem
        obtain ⟨e, he, heq⟩ := List.mem_map.mp hmem
        have hin := InsertionMap.has_iff.mpr ⟨e.2, InsertionMap.mem_entries.mp he⟩
        have := hb.le e.1 hin
        omega
      · intro hmem
        simp only [opened, List.map_map] at hmem
        obtain ⟨i, hi, heq⟩ := List.mem_map.mp hmem
        have hi := List.mem_range.mp hi
        have heq : t.nextRC + 1 + i = t'.nextRC + 1 := heq
        omega
    refine ⟨before ++ [.registered (t'.nextRC + 1)
      ⟨awaiting c, some v, none, [], none⟩], ?_, ⟨?_, ?_, hstands.named, ?_⟩, ?_⟩
    · show t'.nextRC + 1 = t.nextRC + (n + 1)
      omega
    · show (t'.pending.set (t'.nextRC + 1) ⟨awaiting c, correlationOf _ _ _, none, [], none⟩).entries = _
      rw [InsertionMap.entries_set_of_none hfresh, hcorrelation, hstands.pending, hrc]
      simp [opened, List.range_succ, command]
      omega
    · show t'.trace ++ [.registered _ ⟨awaiting c, correlationOf _ _ _, none, [], none⟩] = _
      rw [hcorrelation, hstands.trace]
      simp [opened]
    · exact nodup_opened (n + 1)
    · rw [List.filterMap_append, hquiet]
      rfl

omit [Fields ρ] in
/-- A command in line is answered once when its request is. -/
theorem answeredOnce_iff_line (h : Stands c v base others before t l)
    (hle : ∀ e ∈ others, e.1 ≤ base) (hquiet : ∀ rc r, .settled rc r ∈ before → rc ≤ base)
    (i : Nat) : t.AnsweredOnce (base + 1 + i) ↔ l.AnsweredOnce i := by
  have hbefore : before.filter (fun o => o.settledRC = some (base + 1 + i)) = [] := by
    rw [List.filter_eq_nil_iff]
    intro o ho
    cases o with
    | registered rc p => simp [Tracked.settledRC]
    | settled rc r =>
      have := hquiet rc r ho
      simp only [Tracked.settledRC, decide_eq_true_eq, Option.some.injEq]
      omega
  have htrace : t.trace.filter (fun o => o.settledRC = some (base + 1 + i)) =
      (l.doneAs i).map (outcome base) := by
    rw [h.trace, List.filter_append, hbefore, List.nil_append, List.filter_map, State.doneAs]
    congr 1
    apply List.filter_congr
    intro d _
    show decide (some (base + 1 + d.1) = some (base + 1 + i)) = decide (d.1 = i)
    rw [decide_eq_decide, Option.some.injEq]
    omega
  have hpending : t.pending.has (base + 1 + i) = false ↔ ∀ r ∈ l.waiting, r.id ≠ i := by
    rw [InsertionMap.has_eq_false, InsertionMap.get?_eq_none, h.pending, List.map_append,
      List.mem_append, not_or, List.map_map]
    constructor
    · rintro ⟨-, hline⟩ r hr rfl
      exact hline (List.mem_map.mpr ⟨r, hr, rfl⟩)
    · intro hline
      refine ⟨?_, ?_⟩
      · intro hmem
        obtain ⟨e, he, heq⟩ := List.mem_map.mp hmem
        have := hle e he
        omega
      · intro hmem
        obtain ⟨r, hr, heq⟩ := List.mem_map.mp hmem
        have heq : base + 1 + r.id = base + 1 + i := heq
        exact hline r hr (by omega)
  unfold AnsweredOnce State.AnsweredOnce
  rw [htrace, hpending]
  refine and_congr_left ?_
  intro _
  constructor
  · rintro ⟨params, hdone⟩
    obtain ⟨d, hd, heq⟩ := List.map_eq_singleton_iff.mp hdone
    obtain ⟨id, rows⟩ := d
    obtain ⟨hid, hresult⟩ := Tracked.settled.inj heq
    obtain ⟨-, hrows⟩ := CommandResult.mk.inj hresult
    obtain ⟨a, ha, -⟩ := List.map_eq_singleton_iff.mp hrows
    have hid : base + 1 + id = base + 1 + i := hid
    obtain rfl : id = i := by omega
    exact ⟨a, by rw [hd]; exact congrArg (fun rows => [(id, rows)]) ha⟩
  · rintro ⟨a, hdone⟩
    exact ⟨a.2, by rw [hdone]; rfl⟩

/-- `n` commands are registered with one correlated spec and one value of its key, and
then rows and `error` lines arrive. -/
def awaited (ops : List (Op ρ)) (c : Correlated) (v : Str) (n own : Nat)
    (es : List (Arrival (Str × ρ))) : CommandTracker ρ :=
  run (arrive own (after ops).nextRC)
    (after (ops ++ List.replicate n (.register (awaiting c) (some v) none))) es

/-- **Each of the commands that await the same row is answered once, with one row, if
and only if the rows come in turn**: no row arrives while the `error` of a command that
has one is still to come. -/
theorem answered_once_iff (ops : List (Op ρ)) (c : Correlated) (v : Str) (n own : Nat)
    (es : List (Arrival (Str × ρ))) (hkey : c.key ≠ .of "return_code")
    (hnamed : ∀ row ∈ (after ops).buffered, row.source ≠ [])
    (hrows : ∀ row, .answer row ∈ es → Answering c v row)
    (hothers : ∀ row, .answer row ∈ es → ∀ e ∈ (after ops).pending.entries,
      e.2.takes row.1 row.2 = false)
    (hanswers : (answers es).length = n) (herrors : (closes es).Perm (List.range n)) :
    (∀ i < n, (awaited ops c v n own es).AnsweredOnce ((after ops).nextRC + 1 + i)) ↔
      InTurn es := by
  have hb := books_after ops
  have hle : ∀ e ∈ (after ops).pending.entries, e.1 ≤ (after ops).nextRC := by
    intro e he
    exact hb.le e.1 (InsertionMap.has_iff.mpr ⟨e.2, InsertionMap.mem_entries.mp he⟩)
  obtain ⟨before, -, hstart, hquiet⟩ := registered_stands (v := v) hb hnamed hkey n
  have hstands : Stands c v _ _ _ (run (arrive own _) _ es) _ :=
    run_stands hstart hle fun row hrow => ⟨hrows row hrow, hothers row hrow⟩
  have hsettled : ∀ rc r, .settled rc r ∈ (after ops).trace ++ before → rc ≤ (after ops).nextRC := by
    intro rc r hr
    rcases List.mem_append.mp hr with hr | hr
    · exact hb.settled_le rc r hr
    · have hmem : rc ∈ before.filterMap Tracked.settledRC := List.mem_filterMap.mpr ⟨_, hr, rfl⟩
      rw [hquiet] at hmem
      exact absurd hmem List.not_mem_nil
  have hcloses : ∀ i < n, i ∈ closes es := by
    intro i hi
    exact herrors.mem_iff.mpr (List.mem_range.mpr hi)
  rw [← answeredOnce_iff hanswers hcloses]
  apply forall₂_congr
  intro i _
  show (run (arrive own (after ops).nextRC) (run step .new (ops ++ _)) es).AnsweredOnce _ ↔ _
  rw [run_append]
  exact answeredOnce_iff_line hstands hle hsettled i

/-! ### `clientgetvariables` twice -/

/-- How `clientgetvariables` is answered. -/
def clientUpdated : Correlated := ⟨[.of "notifyclientupdated"], .of "clid", none⟩

/-- A row that answers `clientgetvariables clid=7`. -/
def rowOfSeven : Str × Params :=
  (.of "notifyclientupdated", InsertionMap.empty.set (.of "clid") (.of "7"))

/-- Both rows arrive ahead of the `error` lines. -/
def rowsFirst : List (Arrival (Str × Params)) :=
  [.answer rowOfSeven, .answer rowOfSeven, .close 0, .close 1]

/-- The first command takes both rows, and the second is left waiting. -/
theorem first_takes_two :
    let t := awaited [] clientUpdated (.of "7") 2 1 rowsFirst
    .settled 1 ⟨none, [rowOfSeven.2, rowOfSeven.2]⟩ ∈ t.trace ∧ t.pending.has 2 = true ∧
      ¬ ∀ i < 2, t.AnsweredOnce (1 + i) := by
  refine ⟨by decide, by decide, ?_⟩
  intro h
  have hleft := (h 1 (by decide)).2
  revert hleft
  decide

/-- The second row may overtake its own `error`, but not the first's. -/
def inTurn : List (Arrival (Str × Params)) :=
  [.answer rowOfSeven, .close 0, .answer rowOfSeven, .close 1]

theorem answered_once_in_turn :
    (∀ i < 2, (awaited [] clientUpdated (.of "7") 2 1 inTurn).AnsweredOnce (1 + i)) ∧
      InTurn inTurn := by
  have hrow : ∀ row, .answer row ∈ inTurn → row = rowOfSeven := by
    intro row hrow
    simpa [inTurn] using hrow
  have hiff := answered_once_iff [] clientUpdated (.of "7") 2 1 inTurn (by decide)
    (by decide)
    (by
      intro row h
      rw [hrow row h]
      exact ⟨by decide, by decide, by decide, by decide⟩)
    (by intro row _ e he; exact absurd he List.not_mem_nil) rfl (by decide)
  have hsettled : ∀ i < 2, let t := awaited [] clientUpdated (.of "7") 2 1 inTurn
      t.trace.filter (fun o => o.settledRC = some (1 + i)) =
        [.settled (1 + i) ⟨none, [rowOfSeven.2]⟩] ∧ t.pending.has (1 + i) = false := by
    decide
  have hanswered : ∀ i < 2,
      (awaited [] clientUpdated (.of "7") 2 1 inTurn).AnsweredOnce (1 + i) := by
    intro i hi
    exact ⟨⟨rowOfSeven.2, (hsettled i hi).1⟩, (hsettled i hi).2⟩
  exact ⟨hanswered, hiff.mp hanswered⟩

end CommandTracker

end Client

end Teamspeak
