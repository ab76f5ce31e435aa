import Mathlib.Data.Multiset.Bind
import Teamspeak.Client.Commands.Books

/-!
# The tracker's rows

Where the rows of a `CommandTracker` go, after any operations in any order.

* `accounted_after`: the rows given out and the rows held are rows that were offered,
  each once.
* `buffered_along`: the buffer is what was offered to it since it was last emptied.
* `tracker_bookkeeping`: the laws a caller sees.
-/

namespace Teamspeak

namespace Client

namespace CommandTracker

variable {ρ : Type*} {op : Op ρ} {t t' : CommandTracker ρ}

/-! ### Rows -/

/-- The rows that the commands in flight have been given. -/
def pendingRows (m : InsertionMap Nat (PendingCommand ρ)) : Multiset ρ :=
  (m.entries.flatMap fun e => e.2.rows : List ρ)

theorem pendingRows_of_get? {m : InsertionMap Nat (PendingCommand ρ)} {rc : Nat}
    {p : PendingCommand ρ} (h : m.get? rc = some p) :
    pendingRows m = (p.rows : Multiset ρ) + pendingRows (m.delete rc) :=
  Multiset.coe_eq_coe.mpr ((InsertionMap.perm_of_get? h).flatMap_right _)

theorem pendingRows_set (m : InsertionMap Nat (PendingCommand ρ)) (rc : Nat)
    (p : PendingCommand ρ) :
    pendingRows (m.set rc p) = (p.rows : Multiset ρ) + pendingRows (m.delete rc) :=
  Multiset.coe_eq_coe.mpr ((InsertionMap.perm_set m rc p).flatMap_right _)

theorem pendingRows_delete_le (m : InsertionMap Nat (PendingCommand ρ)) (rc : Nat) :
    pendingRows (m.delete rc) ≤ pendingRows m := by
  cases h : m.get? rc with
  | none => rw [InsertionMap.delete_of_none h]
  | some p => rw [pendingRows_of_get? h]; exact Multiset.le_add_left _ _

/-- The rows given out, the rows in the buffer and the rows kept for a command. -/
def accounts (t : CommandTracker ρ) : Multiset ρ :=
  (t.trace.flatMap Tracked.rows : List ρ) + (t.buffered.map BufferedRow.params : List ρ) +
    pendingRows t.pending

theorem settle_accounts (t : CommandTracker ρ) (rc : Nat) (result : CommandResult ρ) :
    (t.settle rc result).accounts = (t.trace.flatMap Tracked.rows : List ρ) +
      (result.data : Multiset ρ) + (t.buffered.map BufferedRow.params : List ρ) +
        pendingRows (t.pending.delete rc) := by
  simp [accounts, settle, log, Tracked.rows]

theorem accounts_of_get? {rc : Nat} {p : PendingCommand ρ} (h : t.pending.get? rc = some p) :
    t.accounts = (t.trace.flatMap Tracked.rows : List ρ) +
      (t.buffered.map BufferedRow.params : List ρ) +
        ((p.rows : Multiset ρ) + pendingRows (t.pending.delete rc)) := by
  rw [accounts, pendingRows_of_get? h]

variable [Fields ρ]

theorem offerCorrelated_accounts (t : CommandTracker ρ) (name : Str) (params : ρ) :
    (t.offerCorrelated name params).accounts ≤ t.accounts + {params} := by
  classical
  rcases offerCorrelated_cases t name params with h | ⟨rc, p, hget, -, hcase⟩
  · rw [h]
    exact Multiset.le_add_right _ _
  rw [accounts_of_get? hget, Multiset.le_iff_count]
  intro row
  rcases hcase with h | ⟨held, hsettled, h⟩ | ⟨hsettled, h⟩
  · rw [h, settle_accounts]
    simp only [Multiset.count_add, Multiset.coe_count, List.count_nil]
    omega
  · rw [h, settle_accounts]
    simp only [PendingCommand.rows, hsettled, Multiset.count_add, Multiset.coe_count,
      List.count_append, ← Multiset.coe_singleton, Option.map_some, Option.getD_some]
    omega
  · rw [h]
    simp only [accounts, pendingRows_set, PendingCommand.rows, hsettled, Multiset.count_add,
      Multiset.coe_count, List.count_append, ← Multiset.coe_singleton]
    omega

theorem resolve_accounts (t : CommandTracker ρ) (rc : Nat) (err : Option Failure) (own : Nat) :
    (t.resolve rc err own).accounts ≤ t.accounts := by
  classical
  rw [Multiset.le_iff_count]
  intro row
  rcases resolve_cases t rc err own with ⟨-, h⟩ | ⟨p, hget, hcase⟩
  · rw [h]
    simp only [accounts, Multiset.count_add, List.map_nil, Multiset.coe_nil, Multiset.count_zero]
    omega
  -- The rows that answer the command are some of those in the buffer.
  have hfilter : (t.answersOf p own).count row ≤
      (t.buffered.map BufferedRow.params).count row :=
    (List.filter_sublist.map _).count_le row
  rw [accounts_of_get? hget]
  rcases hcase with ⟨e, -, h⟩ | ⟨-, -, hnone, h⟩ | ⟨-, -, h⟩
  · rw [h]
    simp only [settle_accounts, Multiset.count_add, Multiset.coe_count, List.map_nil,
      List.count_nil]
    omega
  · rw [h]
    simp only [accounts, pendingRows_set, PendingCommand.rows, hnone, Multiset.count_add,
      Multiset.coe_count, List.map_nil, List.count_nil, List.append_nil, Option.map_some,
      Option.getD_some]
    omega
  · rw [h]
    simp only [settle_accounts, PendingCommand.rows, Multiset.count_add, Multiset.coe_count,
      List.map_nil, List.count_nil, List.count_append]
    omega

/-- **No operation makes a row up**: what is given out or kept after it was before it,
or is the row it offers. -/
theorem step_accounts (t : CommandTracker ρ) (op : Op ρ) :
    (t.step op).accounts ≤ t.accounts + op.rows := by
  classical
  cases op with
  | register spec correlation echo =>
    show (t.register spec correlation echo).accounts ≤ _
    rw [Multiset.le_iff_count]
    intro row
    have hle := Multiset.count_le_of_le row (pendingRows_delete_le t.pending (t.nextRC + 1))
    simp only [register, accounts, log, pendingRows_set, PendingCommand.rows, Tracked.rows, Op.rows,
      Multiset.count_add, Multiset.coe_count, List.flatMap_append, List.flatMap_singleton,
      List.append_nil, List.count_nil, Option.map_none, Option.getD_none]
    omega
  | unregister rc =>
    show accounts { t with pending := t.pending.delete rc } ≤ t.accounts + 0
    rw [add_zero]
    exact add_le_add_right (pendingRows_delete_le t.pending rc) _
  | buffer params source =>
    show (t.buffer params source).accounts ≤ t.accounts + {params}
    unfold buffer
    split_ifs
    · exact Multiset.le_add_right _ _
    · exact Multiset.le_add_right _ _
    · rw [Multiset.le_iff_count]
      intro row
      simp only [accounts, Multiset.count_add, Multiset.coe_count, List.map_append, List.map_cons,
        List.map_nil, List.count_append, ← Multiset.coe_singleton]
      omega
  | offerCorrelated name params => exact offerCorrelated_accounts t name params
  | resolve rc err own =>
    show (t.resolve rc err own).accounts ≤ t.accounts + 0
    rw [add_zero]
    exact resolve_accounts t rc err own
  | signalWelcomeComplete | discardBuffer =>
    rw [Multiset.le_iff_count]
    intro row
    simp only [step, signalWelcomeComplete, discardBuffer, accounts, Op.rows, Multiset.count_add,
      Multiset.coe_count, List.map_nil, List.count_nil]
    omega
  | reset err =>
    rw [Multiset.le_iff_count]
    intro row
    have hnone : (t.pending.entries.map fun e => Tracked.settled e.1 ⟨some err, []⟩).flatMap
        (fun o : Tracked ρ => o.rows) = [] := by
      rw [List.flatMap_map]
      show t.pending.entries.flatMap (fun _ => []) = []
      simp
    simp only [step, reset, accounts, pendingRows, InsertionMap.empty, Op.rows, hnone,
      Multiset.count_add, Multiset.coe_count, List.map_nil, List.flatMap_nil, List.count_nil,
      List.flatMap_append, List.append_nil]
    omega

/-- **The rows given out and the rows held are rows that were offered, each once.** -/
theorem accounted_after (ops : List (Op ρ)) :
    (after ops).accounts ≤ (ops.flatMap Op.rows : List ρ) := by
  suffices h : ∀ t : CommandTracker ρ,
      (run step t ops).accounts ≤ t.accounts + (ops.flatMap Op.rows : List ρ) by
    have hnew := h new
    rwa [show (new : CommandTracker ρ).accounts = 0 from rfl, zero_add] at hnew
  induction ops with
  | nil => intro t; exact Multiset.le_add_right _ _
  | cons op ops ih =>
    intro t
    calc (run step (t.step op) ops).accounts
        ≤ (t.step op).accounts + (ops.flatMap Op.rows : List ρ) := ih _
      _ ≤ t.accounts + op.rows + (ops.flatMap Op.rows : List ρ) :=
        add_le_add_left (step_accounts t op) _
      _ = t.accounts + ((op :: ops).flatMap Op.rows : List ρ) := by
        rw [List.flatMap_cons, add_assoc, Multiset.coe_add]

/-! ### The buffer -/

/-- The rows that operations offer to the buffer while the welcome is complete and some
command is in flight. -/
def offeredAlong (t : CommandTracker ρ) : List (Op ρ) → List (BufferedRow ρ)
  | [] => []
  | op :: ops =>
    (match op with
      | .buffer params source =>
        if t.welcomeComplete = true ∧ t.pending.size ≠ 0 then [⟨source, params⟩] else []
      | _ => []) ++ offeredAlong (t.step op) ops

/-- **The buffer is what was offered to it** since it was last emptied. -/
theorem buffered_along (t : CommandTracker ρ) {ops : List (Op ρ)}
    (hops : ∀ op ∈ ops, op.clears = false) :
    (run step t ops).buffered = t.buffered ++ t.offeredAlong ops := by
  induction ops generalizing t with
  | nil => simp [run, offeredAlong]
  | cons op ops ih =>
    have hrest : ∀ op' ∈ ops, op'.clears = false :=
      fun op' h => hops op' (List.mem_cons_of_mem _ h)
    show (run step (t.step op) ops).buffered = t.buffered ++ (_ ++ offeredAlong (t.step op) ops)
    rw [ih (t.step op) hrest, ← List.append_assoc]
    congr 1
    have hop := hops op List.mem_cons_self
    cases op with
    | buffer params source =>
      show (t.buffer params source).buffered = t.buffered ++ if _ then _ else _
      unfold buffer
      by_cases hwelcome : t.welcomeComplete = false
      · rw [if_pos hwelcome, if_neg (by simp [hwelcome]), List.append_nil]
      · by_cases hsize : t.pending.size = 0
        · rw [if_neg hwelcome, if_pos hsize, if_neg (by simp [hsize]), List.append_nil]
        · rw [if_neg hwelcome, if_neg hsize, if_pos ⟨by simpa using hwelcome, hsize⟩]
    | offerCorrelated name params =>
      rw [List.append_nil]
      show (t.offerCorrelated name params).buffered = t.buffered
      rcases offerCorrelated_cases t name params with
        h | ⟨rc, p, -, -, h | ⟨held, -, h⟩ | ⟨-, h⟩⟩
      · rw [h]
      · rw [h]; rfl
      · rw [h]; rfl
      · rw [h]
    | register spec correlation echo => exact (List.append_nil _).symm
    | unregister rc => exact (List.append_nil _).symm
    | signalWelcomeComplete => exact absurd hop (by simp [Op.clears])
    | resolve rc err own => exact absurd hop (by simp [Op.clears])
    | discardBuffer => exact absurd hop (by simp [Op.clears])
    | reset err => exact absurd hop (by simp [Op.clears])

theorem buffered_of_clears (t : CommandTracker ρ) {op : Op ρ} (h : op.clears = true) :
    (t.step op).buffered = [] := by
  cases op with
  | signalWelcomeComplete => rfl
  | discardBuffer => rfl
  | reset err => rfl
  | resolve rc err own =>
    show (t.resolve rc err own).buffered = []
    rcases resolve_cases t rc err own with
      ⟨-, h⟩ | ⟨p, -, ⟨e, -, h⟩ | ⟨-, -, -, h⟩ | ⟨-, -, h⟩⟩
    · rw [h]
    · rw [h]; rfl
    · rw [h]
    · rw [h]; rfl
  | _ => exact absurd h (by simp [Op.clears])

/-! ### The laws -/

theorem after_concat (ops : List (Op ρ)) (op : Op ρ) :
    after (ops ++ [op]) = (after ops).step op := run_concat step new ops op

/-- A command that was registered and has neither settled nor been unregistered is in
flight. -/
theorem in_flight_after (ops : List (Op ρ)) {rc : Nat} {p : PendingCommand ρ}
    (hgiven : .registered rc p ∈ (after ops).trace)
    (hunsettled : ∀ r, .settled rc r ∉ (after ops).trace) (hkept : .unregister rc ∉ ops) :
    (after ops).pending.has rc = true := by
  induction ops using List.reverseRecOn with
  | nil => exact absurd hgiven List.not_mem_nil
  | append_singleton ops op ih =>
    rw [after_concat] at hgiven hunsettled ⊢
    rw [List.mem_append, not_or] at hkept
    have hchange := step_change (after ops) op
    obtain ⟨outs, htrace, -, -⟩ := hchange.trace_grows
    have hbefore : .registered rc p ∈ (after ops).trace → (after ops).pending.has rc = true := by
      intro h
      refine ih h ?_ hkept.1
      intro r hr
      apply hunsettled r
      rw [htrace]
      exact List.mem_append_left _ hr
    cases hchange with
    | quiet hpending hrc htrace => rw [htrace] at hgiven; rw [hpending]; exact hbefore hgiven
    | registered q hplain hrc hpending htrace =>
      rw [htrace, List.mem_append, List.mem_singleton] at hgiven
      rw [hpending, InsertionMap.has, InsertionMap.get?_set]
      split_ifs with hk
      · rfl
      · rcases hgiven with hgiven | hgiven
        · exact hbefore hgiven
        · exact absurd (Tracked.registered.inj hgiven).1.symm hk
    | unregistered rc' hop hpending hrc htrace =>
      rw [htrace] at hgiven
      rw [hpending, InsertionMap.has, InsertionMap.get?_delete, if_neg]
      · exact hbefore hgiven
      · rintro rfl
        exact hkept.2 (by simp [hop])
    | answered rc' q q' hget hasks hawaits hpending hrc htrace =>
      rw [htrace] at hgiven
      rw [hpending, InsertionMap.has, InsertionMap.get?_set]
      split_ifs
      · rfl
      · exact hbefore hgiven
    | settled rc' q result hget hpending hrc htrace =>
      rw [hpending, InsertionMap.has, InsertionMap.get?_delete, if_neg]
      · exact hbefore (by simpa [htrace] using hgiven)
      · rintro rfl
        exact hunsettled result (by simp [htrace])
    | reset err hpending hrc htrace =>
      have hin : .registered rc p ∈ (after ops).trace := by simpa [htrace] using hgiven
      obtain ⟨q, hq⟩ := InsertionMap.has_iff.mp (hbefore hin)
      refine absurd ?_ (hunsettled ⟨some err, []⟩)
      rw [htrace]
      apply List.mem_append_right
      exact List.mem_map.mpr ⟨(rc, q), InsertionMap.mem_entries.mpr hq, rfl⟩

/-- A command that awaits no correlated answer gets the rows of the buffer that answer
it. -/
theorem resolve_plain (hb : Books t) {rc : Nat} {p : PendingCommand ρ}
    (hgiven : .registered rc p ∈ t.trace) (hpending : t.pending.has rc = true)
    (hplain : p.awaits = none) (err : Option Failure) (own : Nat) :
    (t.step (.resolve rc err own)).trace = t.trace ++ [.settled rc ⟨err,
      (t.buffered.filter (p.answers own)).map BufferedRow.params⟩] := by
  obtain ⟨q, hq⟩ := InsertionMap.has_iff.mp hpending
  have hasks := hb.asks rc q p hq hgiven
  have hnone : q.awaits = none := by rw [hasks.awaits, hplain]
  show (t.resolve rc err own).trace = _
  rw [← hasks.answers own]
  rcases resolve_cases t rc err own with ⟨hgone, -⟩ | ⟨q', hq', hcase⟩
  · rw [hq] at hgone
    exact absurd hgone (by simp)
  obtain rfl : q' = q := by rw [hq] at hq'; exact (Option.some.inj hq').symm
  rcases hcase with ⟨e, rfl, h⟩ | ⟨-, hawaits, -⟩ | ⟨rfl, -, h⟩
  · rw [h]; rfl
  · rw [hnone] at hawaits
    exact absurd hawaits (by simp)
  · rw [h, (hb.plain rc q' hq hnone).1, List.append_nil]; rfl

theorem run_split (pre mid : List (Op ρ)) : after (pre ++ mid) = run step (after pre) mid :=
  run_append step new pre mid

/-- **The tracker's laws**, after any operations: a command settles at most once, and
not once it was unregistered; a return code is given out once; a command that awaits no
correlated answer gets the rows that answer it among those offered to the buffer since
it was last emptied; a row is given out once; and a reset fails every command in flight,
which are all that have neither settled nor been unregistered. -/
theorem tracker_bookkeeping (ops : List (Op ρ)) :
    let t := after ops
    (t.trace.filterMap Tracked.settledRC).Nodup ∧
    (∀ pre post rc p, ops = pre ++ .unregister rc :: post →
      .registered rc p ∈ (after pre).trace →
        ∃ outs, t.trace = (after pre).trace ++ outs ∧ ∀ r, .settled rc r ∉ outs) ∧
    (t.trace.filterMap Tracked.givenRC).Nodup ∧
    (∀ pre mid rc p err own, ops = pre ++ mid →
      (pre = [] ∨ ∃ init op, pre = init ++ [op] ∧ op.clears = true) →
      (∀ op ∈ mid, op.clears = false) →
      .registered rc p ∈ t.trace → t.pending.has rc = true → p.awaits = none →
        (t.step (.resolve rc err own)).trace = t.trace ++ [.settled rc ⟨err,
          (((after pre).offeredAlong mid).filter (p.answers own)).map BufferedRow.params⟩]) ∧
    (t.trace.flatMap Tracked.rows).Subperm (ops.flatMap Op.rows) ∧
    (∀ rc p, .registered rc p ∈ t.trace → (∀ r, .settled rc r ∉ t.trace) →
      .unregister rc ∉ ops → t.pending.has rc = true) ∧
    ∀ err, (t.step (.reset err)).pending.entries = [] ∧
      ∀ rc, t.pending.has rc = true → .settled rc ⟨some err, []⟩ ∈ (t.step (.reset err)).trace := by
  intro t
  have hb : Books t := books_after ops
  refine ⟨hb.once, ?_, ?_, ?_, ?_, ?_, ?_⟩
  · intro pre post rc p hops hgiven
    have hpre := books_after pre
    have hchange := step_change (after pre) (.unregister rc : Op ρ)
    obtain ⟨outs, htrace, hnone⟩ := (hchange.books hpre).over (hpre.registered_le hgiven)
      (InsertionMap.has_eq_false.mpr (InsertionMap.get?_delete_self _ rc)) post
    refine ⟨outs, ?_, hnone⟩
    show (after ops).trace = _
    rw [hops, run_split]
    exact htrace
  · rw [hb.given]
    exact List.nodup_range'
  · intro pre mid rc p err own hops hpre hmid hgiven hpending hplain
    have hempty : (after pre).buffered = [] := by
      rcases hpre with rfl | ⟨init, op, rfl, hop⟩
      · rfl
      · rw [after_concat]
        exact buffered_of_clears _ hop
    have hbuffered : t.buffered = (after pre).offeredAlong mid := by
      show (after ops).buffered = _
      rw [hops, run_split, buffered_along _ hmid, hempty, List.nil_append]
    rw [resolve_plain hb hgiven hpending hplain err own, hbuffered]
  · have hle : (t.trace.flatMap Tracked.rows : Multiset ρ) ≤ (ops.flatMap Op.rows : List ρ) :=
      calc (t.trace.flatMap Tracked.rows : Multiset ρ)
          ≤ t.accounts := (Multiset.le_add_right _ _).trans (Multiset.le_add_right _ _)
        _ ≤ _ := accounted_after ops
    exact Multiset.coe_le.mp hle
  · intro rc p hgiven hunsettled hkept
    exact in_flight_after ops hgiven hunsettled hkept
  · intro err
    refine ⟨rfl, ?_⟩
    intro rc hpending
    obtain ⟨p, hp⟩ := InsertionMap.has_iff.mp hpending
    apply List.mem_append_right
    exact List.mem_map.mpr ⟨(rc, p), InsertionMap.mem_entries.mpr hp, rfl⟩

end CommandTracker

end Client

end Teamspeak
