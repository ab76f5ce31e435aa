import Mathlib.Data.List.Range
import Mathlib.Data.List.Nodup
import Teamspeak.Lib.Run

/-!
# Answers to the first in line

Requests wait in line.  An answer goes to the first of them, whichever it is meant
for; a request is done once it has an answer and has been closed, in either order.

* `InTurn`: no answer arrives while a request that has one is not closed yet.
* `run_of_inTurn`: the line then moves up by one with each answer.
* `answeredOnce_iff`: with as many answers as requests and every request closed, each
  request ends with exactly one answer if and only if the answers came in turn.
-/

namespace Teamspeak

namespace Line

variable {α : Type*}

structure Request (α : Type*) where
  id : Nat
  answers : List α
  closed : Bool

inductive Arrival (α : Type*)
  | answer (a : α)
  | close (id : Nat)

/-- The requests in line and, in the order they were done, those that are, with their
answers. -/
structure State (α : Type*) where
  waiting : List (Request α)
  done : List (Nat × List α)

/-- An answer to the first in line. -/
def State.answer (l : State α) (a : α) : State α :=
  match l.waiting with
  | [] => l
  | r :: rs =>
    if r.closed then ⟨rs, l.done ++ [(r.id, r.answers ++ [a])]⟩
    else ⟨{ r with answers := r.answers ++ [a] } :: rs, l.done⟩

def State.close (l : State α) (id : Nat) : State α :=
  match l.waiting.find? fun r => r.id = id with
  | none => l
  | some r =>
    if r.answers = [] then
      { l with waiting := l.waiting.map fun r => if r.id = id then { r with closed := true } else r }
    else ⟨l.waiting.filter fun r => r.id ≠ id, l.done ++ [(id, r.answers)]⟩

def step (l : State α) : Arrival α → State α
  | .answer a => l.answer a
  | .close id => l.close id

/-- `n` requests in line, by their numbers. -/
def opened (n : Nat) : State α := ⟨(List.range n).map fun i => ⟨i, [], false⟩, []⟩

/-! ### Arrivals -/

def Arrival.answer? : Arrival α → Option α
  | .answer a => some a
  | .close _ => none

def Arrival.close? : Arrival α → Option Nat
  | .answer _ => none
  | .close id => some id

/-- The answers that have arrived. -/
def answers (es : List (Arrival α)) : List α := es.filterMap Arrival.answer?

/-- The requests that have been closed. -/
def closes (es : List (Arrival α)) : List Nat := es.filterMap Arrival.close?

@[simp] theorem answers_append (es fs : List (Arrival α)) :
    answers (es ++ fs) = answers es ++ answers fs := List.filterMap_append

@[simp] theorem closes_append (es fs : List (Arrival α)) :
    closes (es ++ fs) = closes es ++ closes fs := List.filterMap_append

@[simp] theorem answers_answer (a : α) : answers [.answer a] = [a] := rfl
@[simp] theorem answers_close (id : Nat) : answers [(.close id : Arrival α)] = [] := rfl
@[simp] theorem closes_answer (a : α) : closes [.answer a] = [] := rfl
@[simp] theorem closes_close (id : Nat) : closes [(.close id : Arrival α)] = [id] := rfl

/-- An answer arrives only once every request answered before is closed: those are
the first, as many as there are answers before it. -/
def InTurn (es : List (Arrival α)) : Prop :=
  ∀ pre a post, es = pre ++ .answer a :: post → ∀ j < (answers pre).length, j ∈ closes pre

theorem InTurn.of_append {es fs : List (Arrival α)} (h : InTurn (es ++ fs)) : InTurn es := by
  intro pre a post hes
  exact h pre a (post ++ fs) (by simp [hes])

theorem InTurn.concat_close {es : List (Arrival α)} (h : InTurn es) (id : Nat) :
    InTurn (es ++ [.close id]) := by
  intro pre a post hes
  rcases List.eq_nil_or_concat post with rfl | ⟨post, e, rfl⟩
  · have heq := (List.append_inj' hes rfl).2
    exact absurd (List.cons.inj heq).1 (by simp)
  · refine h pre a post ?_
    rw [List.concat_eq_append, ← List.cons_append, ← List.append_assoc] at hes
    exact (List.append_inj' hes rfl).1

theorem InTurn.concat_answer {es : List (Arrival α)} (h : InTurn es) (a : α)
    (hclosed : ∀ j < (answers es).length, j ∈ closes es) : InTurn (es ++ [.answer a]) := by
  intro pre b post hes
  rcases List.eq_nil_or_concat post with rfl | ⟨post, e, rfl⟩
  · obtain ⟨rfl, -⟩ := List.append_inj' hes rfl
    exact hclosed
  · refine h pre b post ?_
    rw [List.concat_eq_append, ← List.cons_append, ← List.append_assoc] at hes
    exact (List.append_inj' hes rfl).1

/-- Where the answers first come out of turn. -/
theorem exists_of_not_inTurn {es : List (Arrival α)} (h : ¬ InTurn es) :
    ∃ pre a post, es = pre ++ .answer a :: post ∧ InTurn pre ∧
      ∃ j < (answers pre).length, j ∉ closes pre := by
  induction es using List.reverseRecOn with
  | nil => exact absurd (fun pre a post hes => absurd hes (by simp)) h
  | append_singleton es e ih =>
    by_cases hes : InTurn es
    · cases e with
      | close id => exact absurd (hes.concat_close id) h
      | answer a =>
        have hnot : ¬ ∀ j < (answers es).length, j ∈ closes es := fun hall =>
          h (hes.concat_answer a hall)
        push Not at hnot
        exact ⟨es, a, [], rfl, hes, hnot⟩
    · obtain ⟨pre, a, post, rfl, hpre, hj⟩ := ih hes
      exact ⟨pre, a, post ++ [e], by simp, hpre, hj⟩

/-- In turn, only the last request answered may not be closed. -/
theorem InTurn.mem_closes {es : List (Arrival α)} (h : InTurn es) {j : Nat}
    (hj : j + 1 < (answers es).length) : j ∈ closes es := by
  induction es using List.reverseRecOn with
  | nil => simp [answers] at hj
  | append_singleton es e ih =>
    rw [closes_append]
    apply List.mem_append_left
    cases e with
    | close id => exact ih h.of_append (by simpa using hj)
    | answer a =>
      refine h es a [] rfl j ?_
      simp at hj
      omega

/-! ### In turn -/

/-- The last request answered, if it is not closed yet. -/
def answeredWaiting (es : List (Arrival α)) : List (Request α) :=
  match (answers es).getLast? with
  | none => []
  | some a =>
    if (answers es).length - 1 ∈ closes es then [] else [⟨(answers es).length - 1, [a], false⟩]

/-- The requests that have no answer yet. -/
def unanswered (n : Nat) (es : List (Arrival α)) : List (Request α) :=
  (List.range' (answers es).length (n - (answers es).length)).map fun j =>
    ⟨j, [], decide (j ∈ closes es)⟩

/-- What has become of a request that is done. -/
def State.doneAs (l : State α) (id : Nat) : List (Nat × List α) :=
  l.done.filter fun d => d.1 = id

theorem answeredWaiting_of_closed {es : List (Arrival α)}
    (h : ∀ j < (answers es).length, j ∈ closes es) : answeredWaiting es = [] := by
  unfold answeredWaiting
  cases hlast : (answers es).getLast? with
  | none => rfl
  | some a =>
    have hne : answers es ≠ [] := by
      rintro hnil
      rw [hnil] at hlast
      exact absurd hlast (by simp)
    have hpos := List.length_pos_of_ne_nil hne
    exact if_pos (h _ (by omega))

theorem answeredWaiting_answer (es : List (Arrival α)) (a : α) :
    answeredWaiting (es ++ [.answer a]) =
      if (answers es).length ∈ closes es then [] else [⟨(answers es).length, [a], false⟩] := by
  simp [answeredWaiting]

theorem unanswered_cons {n : Nat} {es : List (Arrival α)} (h : (answers es).length < n) (a : α) :
    unanswered n es = ⟨(answers es).length, [], decide ((answers es).length ∈ closes es)⟩ ::
      unanswered n (es ++ [.answer a]) := by
  have hsub : n - (answers es).length = (n - ((answers es).length + 1)) + 1 := by omega
  simp only [unanswered, answers_append, answers_answer, List.length_append,
    List.length_singleton, closes_append, closes_answer, List.append_nil]
  rw [hsub, List.range'_succ, List.map_cons]

/-- In turn, an answer goes to the first request that has none. -/
theorem step_answer_of_closed {n : Nat} {l : State α} {es : List (Arrival α)}
    (hwaiting : l.waiting = answeredWaiting es ++ unanswered n es)
    (hclosed : ∀ j < (answers es).length, j ∈ closes es) (hlt : (answers es).length < n) (a : α) :
    (l.answer a).waiting =
      answeredWaiting (es ++ [.answer a]) ++ unanswered n (es ++ [.answer a]) ∧
    (l.answer a).done = l.done ++
      if (answers es).length ∈ closes es then [((answers es).length, [a])] else [] := by
  rw [answeredWaiting_of_closed hclosed, List.nil_append, unanswered_cons hlt a] at hwaiting
  rw [answeredWaiting_answer]
  unfold State.answer
  rw [hwaiting]
  by_cases h : (answers es).length ∈ closes es
  · simp [h]
  · simp [h]

/-- A request that has no answer is closed where it stands. -/
theorem map_close_unanswered (n : Nat) (es : List (Arrival α)) (id : Nat) :
    (unanswered n es).map (fun r => if r.id = id then { r with closed := true } else r) =
      unanswered n (es ++ [.close id]) := by
  simp only [unanswered, answers_append, answers_close, List.append_nil, closes_append,
    closes_close, List.map_map]
  apply List.map_congr_left
  intro j _
  by_cases hj : j = id
  · simp [hj]
  · simp [hj]

theorem id_of_mem_unanswered {n : Nat} {es : List (Arrival α)} {r : Request α}
    (h : r ∈ unanswered n es) : (answers es).length ≤ r.id ∧ r.answers = [] := by
  obtain ⟨j, hj, rfl⟩ := List.mem_map.mp h
  exact ⟨(List.mem_range'_1.mp hj).1, rfl⟩

/-- A request that has its answer is done when it is closed. -/
theorem step_close_answered {n : Nat} {l : State α} {es : List (Arrival α)} {a : α}
    (hwaiting : l.waiting = ⟨(answers es).length - 1, [a], false⟩ :: unanswered n es)
    (hpos : 0 < (answers es).length) :
    (l.close ((answers es).length - 1)).waiting = unanswered n es ∧
    (l.close ((answers es).length - 1)).done = l.done ++ [((answers es).length - 1, [a])] := by
  have hfilter : (unanswered n es).filter (fun r => r.id ≠ (answers es).length - 1) =
      unanswered n es := by
    rw [List.filter_eq_self]
    intro r hr
    have := (id_of_mem_unanswered hr).1
    simp only [ne_eq, decide_not, Bool.not_eq_eq_eq_not, Bool.not_true, decide_eq_false_iff_not]
    omega
  unfold State.close
  rw [hwaiting]
  simp only [List.find?_cons_of_pos, decide_true, List.cons_ne_self, if_false]
  refine ⟨?_, trivial⟩
  rw [List.filter_cons_of_neg (by simp), hfilter]

/-- Any other request that is in line has no answer, and is closed where it stands. -/
theorem step_close_other {l : State α} {id : Nat}
    (h : ∀ r ∈ l.waiting, r.id = id → r.answers = []) :
    (l.close id).waiting =
      l.waiting.map (fun r => if r.id = id then { r with closed := true } else r) ∧
    (l.close id).done = l.done := by
  unfold State.close
  cases hfind : l.waiting.find? fun r => r.id = id with
  | none =>
    refine ⟨?_, rfl⟩
    show l.waiting = _
    symm
    refine (List.map_congr_left ?_).trans (List.map_id _)
    intro r hr
    have hne := List.find?_eq_none.mp hfind r hr
    rw [if_neg (by simpa using hne)]
    rfl
  | some r =>
    have hr : r.answers = [] :=
      h r (List.mem_of_find?_eq_some hfind) (by simpa using List.find?_some hfind)
    show (if r.answers = [] then _ else _ : State α).waiting = _ ∧
      (if r.answers = [] then _ else _ : State α).done = _
    rw [if_pos hr]
    exact ⟨rfl, rfl⟩

theorem doneAs_append {l l' : State α} {ds : List (Nat × List α)} (h : l'.done = l.done ++ ds)
    (id : Nat) : l'.doneAs id = l.doneAs id ++ ds.filter fun d => d.1 = id := by
  rw [State.doneAs, h, List.filter_append, State.doneAs]

/-- A request that has been answered and closed, as it is done. -/
def answered (es : List (Arrival α)) (id : Nat) : List (Nat × List α) :=
  if id ∈ closes es then ((answers es)[id]?.map fun a => (id, [a])).toList else []

theorem answered_answer (es : List (Arrival α)) (a : α) (id : Nat) :
    answered (es ++ [.answer a]) id = answered es id ++
      (if (answers es).length ∈ closes es then [((answers es).length, [a])] else []).filter
        fun d => d.1 = id := by
  simp only [answered, closes_append, closes_answer, List.append_nil, answers_append,
    answers_answer]
  by_cases hid : id = (answers es).length
  · subst hid
    by_cases hc : (answers es).length ∈ closes es
    · simp [hc]
    · simp [hc]
  · have hsame : (answers es ++ [a])[id]? = (answers es)[id]? := by
      rcases Nat.lt_or_gt_of_ne hid with h | h
      · rw [List.getElem?_append_left h]
      · rw [List.getElem?_eq_none (by simp; omega), List.getElem?_eq_none h.le]
    have hfilter : (if (answers es).length ∈ closes es then [((answers es).length, [a])]
        else []).filter (fun d : Nat × List α => d.1 = id) = [] := by
      split_ifs
      · simpa using fun h => hid h.symm
      · rfl
    rw [hsame, hfilter, List.append_nil]

theorem answered_close_ne (es : List (Arrival α)) {id id' : Nat} (h : id ≠ id') :
    answered (es ++ [.close id']) id = answered es id := by
  simp [answered, h]

theorem answered_close_self (es : List (Arrival α)) (id : Nat) :
    answered (es ++ [.close id]) id = ((answers es)[id]?.map fun a => (id, [a])).toList := by
  simp [answered]

theorem mem_answeredWaiting {es : List (Arrival α)} {r : Request α}
    (h : r ∈ answeredWaiting es) : ∃ a, (answers es).getLast? = some a ∧
      r = ⟨(answers es).length - 1, [a], false⟩ ∧ (answers es).length - 1 ∉ closes es := by
  unfold answeredWaiting at h
  cases hlast : (answers es).getLast? with
  | none => rw [hlast] at h; exact absurd h (by simp)
  | some a =>
    rw [hlast] at h
    simp only at h
    split_ifs at h with hc
    · exact absurd h (by simp)
    · exact ⟨a, rfl, List.mem_singleton.mp h, hc⟩

theorem answeredWaiting_eq {es : List (Arrival α)} {a : α}
    (hlast : (answers es).getLast? = some a) (hc : (answers es).length - 1 ∉ closes es) :
    answeredWaiting es = [⟨(answers es).length - 1, [a], false⟩] := by
  unfold answeredWaiting
  rw [hlast]
  exact if_neg hc

theorem answeredWaiting_close_self (es : List (Arrival α)) :
    answeredWaiting (es ++ [.close ((answers es).length - 1)]) = [] := by
  unfold answeredWaiting
  rw [answers_append, answers_close, List.append_nil]
  cases (answers es).getLast? with
  | none => rfl
  | some a => exact if_pos (by simp)

/-- Closing another request leaves the last one answered as it is. -/
theorem answeredWaiting_close {es : List (Arrival α)} {id : Nat}
    (h : ∀ r ∈ answeredWaiting es, r.id ≠ id) :
    answeredWaiting (es ++ [.close id]) = answeredWaiting es := by
  unfold answeredWaiting at h ⊢
  rw [answers_append, answers_close, List.append_nil]
  cases hlast : (answers es).getLast? with
  | none => rfl
  | some a =>
    rw [hlast] at h
    simp only at h ⊢
    by_cases hc : (answers es).length - 1 ∈ closes es
    · rw [if_pos hc, if_pos (by simp [hc])]
    · rw [if_neg hc] at h ⊢
      have hne : (answers es).length - 1 ≠ id := h _ (List.mem_singleton_self _)
      rw [if_neg (by simp [hc, hne])]

theorem map_close_of_ne {rs : List (Request α)} {id : Nat} (h : ∀ r ∈ rs, r.id ≠ id) :
    rs.map (fun r => if r.id = id then { r with closed := true } else r) = rs := by
  refine (List.map_congr_left ?_).trans (List.map_id _)
  intro r hr
  rw [if_neg (h r hr)]
  rfl

/-- **In turn, the line moves up by one with each answer**: the first requests have one
each, and are done once they are closed. -/
theorem run_of_inTurn {n : Nat} {es : List (Arrival α)} (h : InTurn es)
    (hle : (answers es).length ≤ n) :
    (run step (opened n) es).waiting = answeredWaiting es ++ unanswered n es ∧
      ∀ id, (run step (opened n) es).doneAs id = answered es id := by
  induction es using List.reverseRecOn with
  | nil =>
    refine ⟨?_, ?_⟩
    · simp [run, opened, answeredWaiting, unanswered, answers, closes, List.range_eq_range']
    · intro id
      simp [run, opened, State.doneAs, answered, closes]
  | append_singleton es e ih =>
    rw [run_concat]
    cases e with
    | answer a =>
      have hlt : (answers es).length < n := by
        rw [answers_append, answers_answer, List.length_append, List.length_singleton] at hle
        exact hle
      have hclosed : ∀ j < (answers es).length, j ∈ closes es := h es a [] rfl
      obtain ⟨hwaiting, hdone⟩ := ih h.of_append hlt.le
      obtain ⟨hwaiting', hdone'⟩ := step_answer_of_closed hwaiting hclosed hlt a
      refine ⟨hwaiting', ?_⟩
      intro id
      rw [answered_answer, ← hdone]
      exact doneAs_append hdone' id
    | close id =>
      have hle : (answers es).length ≤ n := by simpa using hle
      obtain ⟨hwaiting, hdone⟩ := ih h.of_append hle
      -- Either this closes the request that has its answer, or one that has none.
      by_cases hlast : ∃ r ∈ answeredWaiting es, r.id = id
      · obtain ⟨r, hr, rfl⟩ := hlast
        obtain ⟨a, hlast, rfl, hopen⟩ := mem_answeredWaiting hr
        have hpos : 0 < (answers es).length := by
          apply List.length_pos_of_ne_nil
          rintro hnil
          rw [hnil] at hlast
          exact absurd hlast (by simp)
        rw [answeredWaiting_eq hlast hopen, List.singleton_append] at hwaiting
        obtain ⟨hwaiting', hdone'⟩ := step_close_answered hwaiting hpos
        refine ⟨?_, ?_⟩
        · rw [answeredWaiting_close_self, List.nil_append, ← map_close_unanswered, map_close_of_ne]
          · exact hwaiting'
          · intro r hr
            have := (id_of_mem_unanswered hr).1
            show r.id ≠ (answers es).length - 1
            omega
        · intro id
          refine (doneAs_append hdone' id).trans ?_
          rw [hdone]
          by_cases hid : id = (answers es).length - 1
          · subst hid
            rw [answered_close_self, answered, if_neg hopen, ← List.getLast?_eq_getElem?, hlast]
            simp
          · rw [answered_close_ne es hid, List.filter_cons_of_neg (by simpa using fun h => hid h.symm)]
            simp
      · push Not at hlast
        have hother : ∀ r ∈ (run step (opened n) es).waiting, r.id = id → r.answers = [] := by
          intro r hr hid
          rw [hwaiting, List.mem_append] at hr
          rcases hr with hr | hr
          · exact absurd hid (hlast r hr)
          · exact (id_of_mem_unanswered hr).2
        obtain ⟨hwaiting', hdone'⟩ := step_close_other hother
        refine ⟨?_, ?_⟩
        · rw [answeredWaiting_close hlast, ← map_close_unanswered]
          refine hwaiting'.trans ?_
          rw [hwaiting, List.map_append, map_close_of_ne hlast]
        · intro id'
          refine (doneAs_append (hdone'.trans (List.append_nil _).symm) id').trans ?_
          rw [hdone, List.filter_nil, List.append_nil]
          by_cases hid : id' = id
          · subst hid
            rw [answered_close_self, answered]
            split_ifs with hc
            · rfl
            · -- It is not closed and not the last answered, so it has no answer.
              rw [List.getElem?_eq_none, Option.map_none, Option.toList_none]
              by_contra hlt
              push Not at hlt
              have hlast' : id' = (answers es).length - 1 := by
                by_contra hne
                exact hc (h.of_append.mem_closes (by omega))
              have hne : answers es ≠ [] := List.ne_nil_of_length_pos (by omega)
              have hsome := List.getLast?_eq_some_getLast hne
              rw [hlast'] at hc
              have hmem := answeredWaiting_eq hsome hc
              exact hlast _ (by rw [hmem]; exact List.mem_singleton_self _) hlast'.symm
          · rw [answered_close_ne es hid]

/-! ### Out of turn -/

/-- A request has two answers or more. -/
def State.Spoiled (l : State α) (id : Nat) : Prop :=
  (∃ r ∈ l.waiting, r.id = id ∧ 2 ≤ r.answers.length) ∨
    ∃ as, (id, as) ∈ l.done ∧ 2 ≤ as.length

/-- A request is done, with one answer. -/
def State.AnsweredOnce (l : State α) (id : Nat) : Prop :=
  (∃ a, l.doneAs id = [(id, [a])]) ∧ ∀ r ∈ l.waiting, r.id ≠ id

theorem State.Spoiled.not_answeredOnce {l : State α} {id : Nat} (h : l.Spoiled id) :
    ¬ l.AnsweredOnce id := by
  rintro ⟨⟨a, hdone⟩, hwaiting⟩
  rcases h with ⟨r, hr, hid, -⟩ | ⟨as, has, hlen⟩
  · exact hwaiting r hr hid
  · have hmem : (id, as) ∈ l.doneAs id := List.mem_filter.mpr ⟨has, by simp⟩
    rw [hdone, List.mem_singleton] at hmem
    obtain ⟨-, rfl⟩ := Prod.mk.inj hmem
    exact absurd hlen (by simp)

theorem nodup_step {l : State α} (h : (l.waiting.map Request.id).Nodup) (e : Arrival α) :
    ((step l e).waiting.map Request.id).Nodup := by
  cases e with
  | answer a =>
    show ((l.answer a).waiting.map _).Nodup
    unfold State.answer
    cases hw : l.waiting with
    | nil => simp [hw]
    | cons r rs =>
      rw [hw, List.map_cons, List.nodup_cons] at h
      show ((if r.closed then _ else _ : State α).waiting.map _).Nodup
      split_ifs
      · exact h.2
      · exact List.nodup_cons.mpr h
  | close id =>
    show ((l.close id).waiting.map _).Nodup
    unfold State.close
    cases l.waiting.find? fun r => r.id = id with
    | none => exact h
    | some r =>
      show ((if r.answers = [] then _ else _ : State α).waiting.map _).Nodup
      split_ifs
      · have hid : (fun r : Request α => (if r.id = id then { r with closed := true } else r).id) =
            Request.id := by
          funext r
          split_ifs <;> rfl
        show ((l.waiting.map _).map _).Nodup
        rw [List.map_map]
        show (l.waiting.map fun r => _).Nodup
        simp only [Function.comp_def, hid]
        exact h
      · exact h.sublist (List.filter_sublist.map _)

theorem State.Spoiled.step {l : State α} {id : Nat} (h : l.Spoiled id)
    (hnodup : (l.waiting.map Request.id).Nodup) (e : Arrival α) : (step l e).Spoiled id := by
  rcases h with ⟨r, hr, hid, hlen⟩ | ⟨as, has, hlen⟩
  · cases e with
    | answer a =>
      show (l.answer a).Spoiled id
      unfold State.answer
      cases hw : l.waiting with
      | nil => rw [hw] at hr; exact absurd hr List.not_mem_nil
      | cons r' rs =>
        rw [hw] at hr
        show (if r'.closed then _ else _ : State α).Spoiled id
        rcases List.mem_cons.mp hr with rfl | hr
        · split_ifs
          · exact Or.inr ⟨r.answers ++ [a], by rw [hid]; simp, by rw [List.length_append]; omega⟩
          · exact Or.inl ⟨_, List.mem_cons_self, hid, by rw [List.length_append]; omega⟩
        · split_ifs
          · exact Or.inl ⟨r, hr, hid, hlen⟩
          · exact Or.inl ⟨r, List.mem_cons_of_mem _ hr, hid, hlen⟩
    | close id' =>
      show (l.close id').Spoiled id
      unfold State.close
      cases hfind : l.waiting.find? fun r => r.id = id' with
      | none => exact Or.inl ⟨r, hr, hid, hlen⟩
      | some r' =>
        show (if r'.answers = [] then _ else _ : State α).Spoiled id
        split_ifs with hnone
        · refine Or.inl ⟨_, List.mem_map_of_mem hr, ?_⟩
          split_ifs
          · exact ⟨hid, hlen⟩
          · exact ⟨hid, hlen⟩
        · by_cases heq : id = id'
          · -- Ids are distinct, so the one found is this one.
            have hr' := List.mem_of_find?_eq_some hfind
            have hid' : r'.id = id' := by simpa using List.find?_some hfind
            obtain rfl : r = r' := List.inj_on_of_nodup_map hnodup hr hr' (by rw [hid, hid', heq])
            exact Or.inr ⟨r.answers, by rw [heq]; simp, hlen⟩
          · refine Or.inl ⟨r, List.mem_filter.mpr ⟨hr, ?_⟩, hid, hlen⟩
            simpa [hid] using heq
  · refine Or.inr ⟨as, ?_, hlen⟩
    cases e with
    | answer a =>
      show (id, as) ∈ (l.answer a).done
      unfold State.answer
      cases l.waiting with
      | nil => exact has
      | cons r rs =>
        show (id, as) ∈ (if r.closed then _ else _ : State α).done
        split_ifs
        · exact List.mem_append_left _ has
        · exact has
    | close id' =>
      show (id, as) ∈ (l.close id').done
      unfold State.close
      cases l.waiting.find? fun r => r.id = id' with
      | none => exact has
      | some r =>
        show (id, as) ∈ (if r.answers = [] then _ else _ : State α).done
        split_ifs
        · exact has
        · exact List.mem_append_left _ has

theorem run_spoiled {l : State α} {id : Nat} (h : l.Spoiled id)
    (hnodup : (l.waiting.map Request.id).Nodup) (es : List (Arrival α)) :
    (run step l es).Spoiled id := by
  induction es generalizing l with
  | nil => exact h
  | cons e es ih => exact ih (h.step hnodup e) (nodup_step hnodup e)

theorem nodup_opened (n : Nat) : ((opened n : State α).waiting.map Request.id).Nodup := by
  simp only [opened, List.map_map]
  show ((List.range n).map id).Nodup
  rw [List.map_id]
  exact List.nodup_range

theorem nodup_run {l : State α} (h : (l.waiting.map Request.id).Nodup) (es : List (Arrival α)) :
    ((run step l es).waiting.map Request.id).Nodup :=
  run_invariant (I := fun l : State α => (l.waiting.map Request.id).Nodup)
    (fun _ e hl => nodup_step hl e) es h

/-! ### Every request answered once -/

/-- An answer that comes out of turn is the second of the request that has one. -/
theorem spoiled_of_out_of_turn {n : Nat} {pre : List (Arrival α)} (hpre : InTurn pre)
    (hle : (answers pre).length ≤ n) {j : Nat} (hj : j < (answers pre).length)
    (hopen : j ∉ closes pre) (a : α) :
    (run step (opened n) (pre ++ [.answer a])).Spoiled ((answers pre).length - 1) := by
  have hlast : (answers pre).length - 1 ∉ closes pre := by
    by_cases heq : j = (answers pre).length - 1
    · rwa [← heq]
    · exact absurd (hpre.mem_closes (by omega)) hopen
  have hne : answers pre ≠ [] := List.ne_nil_of_length_pos (by omega)
  have hwaiting := (run_of_inTurn hpre hle).1
  rw [answeredWaiting_eq (List.getLast?_eq_some_getLast hne) hlast, List.singleton_append] at hwaiting
  rw [run_concat]
  show ((run step (opened n) pre).answer a).Spoiled _
  unfold State.answer
  rw [hwaiting]
  exact Or.inl ⟨_, List.mem_cons_self, rfl, by simp⟩

/-- **Every request is answered once if and only if the answers come in turn**, when
there are as many answers as requests and every request is closed. -/
theorem answeredOnce_iff {n : Nat} {es : List (Arrival α)} (hanswers : (answers es).length = n)
    (hcloses : ∀ id < n, id ∈ closes es) :
    (∀ id < n, (run step (opened n) es).AnsweredOnce id) ↔ InTurn es := by
  constructor
  · intro hall
    by_contra hturn
    obtain ⟨pre, a, post, rfl, hpre, j, hj, hopen⟩ := exists_of_not_inTurn hturn
    have hlt : (answers pre).length < n := by
      rw [← hanswers, answers_append, List.length_append]
      show _ < _ + (a :: answers post).length
      rw [List.length_cons]
      omega
    have hspoiled := spoiled_of_out_of_turn hpre hlt.le hj hopen a
    have hrest := run_spoiled hspoiled (nodup_run (nodup_opened n) _) post
    rw [← run_append, List.append_assoc, List.singleton_append] at hrest
    exact hrest.not_answeredOnce (hall _ (by omega))
  · intro hturn id hid
    obtain ⟨hwaiting, hdone⟩ := run_of_inTurn hturn hanswers.le
    have hclosed : ∀ j < (answers es).length, j ∈ closes es := by
      rw [hanswers]
      exact hcloses
    refine ⟨⟨(answers es).get ⟨id, by omega⟩, ?_⟩, ?_⟩
    · rw [hdone, answered, if_pos (hcloses id hid), List.getElem?_eq_getElem (by omega)]
      rfl
    · rw [hwaiting, answeredWaiting_of_closed hclosed, List.nil_append, unanswered, hanswers,
        Nat.sub_self]
      simp

end Line

end Teamspeak
