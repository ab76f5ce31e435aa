import Teamspeak.Lib.Run
import Teamspeak.Query.Client.Calls

/-!
# Answers and the commands they are for

Answers carry no name: the client knows whose they are by counting those it still has to
let pass.

* `HasAnswer`: a call was answered, and this is what its own answer comes to.
* `Books`: a call is written once and answered once.
* `Owes`: what the client has to let pass is what its transport has not answered of the
  commands that were given up on.
* `Paired`: so a call that has settled with an answer has settled with its own.
* `Paired.kept`: the steps that leave the wire alone keep it.
-/

namespace Teamspeak.Query

/-- An answer that had none of the rows its command is known to have, one of which would
have had this key. -/
def Vain (key : Str) (a : Answered) : Prop :=
  ∃ late, lateRowsOf a.command = some late ∧ late.keys.head? = some key ∧
    hasLateRow late a.kept = false

/-- One row of an answer is not kept: its only key is that of a row that an earlier answer
over the same transport was to have and had not, and it is none of its command's own. -/
def LostStray (before : List Answered) (t : TransportID) (w : Written) : Prop :=
  ∃ front row back key,
    w.rows = front ++ row :: back ∧ w.kept = front ++ back ∧
      row.entries.map Prod.fst = [key] ∧
      (∃ a ∈ before, a.transport = t ∧ Vain key a) ∧
      ∀ own, lateRowsOf w.command = some own → key ∉ own.keys

/-- The call was answered, and the result is its own rows and its own `error` line. -/
def HasAnswer (integerOf : Str → Option Int) (answered : List Answered) (call : Nat)
    (result : Result) : Prop :=
  ∃ before a after,
    answered = before ++ a :: after ∧ a.call = call ∧ a.result integerOf = result ∧
      (a.kept = a.rows ∨ LostStray before a.transport a.toWritten)

theorem HasAnswer.mono {integerOf : Str → Option Int} {answered : List Answered} {call : Nat}
    {result : Result} (h : HasAnswer integerOf answered call result) (more : List Answered) :
    HasAnswer integerOf (answered ++ more) call result := by
  obtain ⟨before, a, after, rfl, hcall, hresult, hkept⟩ := h
  exact ⟨before, a, after ++ more, by simp, hcall, hresult, hkept⟩

theorem LostStray.mono {before : List Answered} {t : TransportID} {w : Written}
    (h : LostStray before t w) (more : List Answered) : LostStray (before ++ more) t w := by
  obtain ⟨front, row, back, key, hrows, hkept, hrow, ⟨a, ha, hvain⟩, hown⟩ := h
  exact ⟨front, row, back, key, hrows, hkept, hrow, ⟨a, List.mem_append_left _ ha, hvain⟩, hown⟩

/-- Rows that come after the one that was lost are kept. -/
theorem LostStray.append {before : List Answered} {t : TransportID} {w : Written}
    (h : LostStray before t w) (rows : List Params) :
    LostStray before t { w with rows := w.rows ++ rows, kept := w.kept ++ rows } := by
  obtain ⟨front, row, back, key, hrows, hkept, h⟩ := h
  refine ⟨front, row, back ++ rows, key, ?_, ?_, h⟩
  · simp only [hrows, List.append_assoc, List.cons_append]
  · simp only [hkept, List.append_assoc]

namespace System

variable {s s' : System}

/-! ### The calls on the wires -/

structure Books (s : System) : Prop where
  orderly : s.client.Orderly
  fresh : ∀ t, s.client.nextTransport ≤ t → (s.wires t).calls = []
  nodup : ∀ t, ((s.wires t).calls ++ s.answeredCalls).Nodup
  apart : ∀ t u, t ≠ u → (s.wires t).calls.Disjoint (s.wires u).calls
  spent : ∀ c, (∃ t, c ∈ (s.wires t).calls) ∨ c ∈ s.answeredCalls →
    c < s.client.nextCall ∧ c ∉ s.client.unwritten

theorem books_init : ({} : System).Books where
  orderly := Client.orderly_init
  fresh _ _ := rfl
  nodup _ := List.nodup_nil
  apart _ _ _ := List.disjoint_nil_left _
  spent c h := by
    rcases h with ⟨t, h⟩ | h
    · cases h
    · cases h

/-- What leaves a wire is answered, or is gone. -/
inductive Leaves (s s' : System) : Prop
  | gone (h : s'.answeredCalls = s.answeredCalls)
  | answered (t : TransportID) (c : Nat) (hwire : (s.wires t).calls = c :: (s'.wires t).calls)
      (h : s'.answeredCalls = s.answeredCalls ++ [c])

/-- A step that puts no call on a wire. -/
theorem Books.leave (h : s.Books) (horderly : s'.client.Orderly)
    (hnext : s.client.nextTransport ≤ s'.client.nextTransport)
    (hspent : ∀ c, c < s.client.nextCall → c ∉ s.client.unwritten →
      c < s'.client.nextCall ∧ c ∉ s'.client.unwritten)
    (hwires : ∀ t, (s'.wires t).calls.Sublist (s.wires t).calls) (hleaves : Leaves s s') :
    s'.Books where
  orderly := horderly
  fresh t ht := by
    have hwire := hwires t
    rw [h.fresh t (Nat.le_trans hnext ht)] at hwire
    exact List.sublist_nil.mp hwire
  nodup t := by
    rcases hleaves with hsame | ⟨u, c, hwire, hanswered⟩
    · rw [hsame]
      exact (h.nodup t).sublist ((hwires t).append_right _)
    · rw [hanswered, ← List.append_assoc]
      have hcu := h.nodup u
      rw [hwire, List.cons_append, List.nodup_cons, List.mem_append, not_or] at hcu
      refine ((h.nodup t).sublist ((hwires t).append_right _)).append (List.nodup_singleton c) ?_
      intro d hd hdc
      rw [List.mem_singleton] at hdc
      subst hdc
      rcases List.mem_append.mp hd with hd | hd
      · by_cases htu : t = u
        · subst htu
          exact hcu.1.1 hd
        · exact h.apart t u htu ((hwires t).subset hd) (by simp [hwire])
      · exact hcu.1.2 hd
  apart t u htu c hc hc' := h.apart t u htu ((hwires t).subset hc) ((hwires u).subset hc')
  spent c hc := by
    have hbefore : (∃ t, c ∈ (s.wires t).calls) ∨ c ∈ s.answeredCalls := by
      rcases hc with ⟨t, hc⟩ | hc
      · exact Or.inl ⟨t, (hwires t).subset hc⟩
      · rcases hleaves with hsame | ⟨u, d, hwire, hanswered⟩
        · exact Or.inr (hsame ▸ hc)
        · rw [hanswered, List.mem_append, List.mem_singleton] at hc
          rcases hc with hc | rfl
          · exact Or.inr hc
          · exact Or.inl ⟨u, by simp [hwire]⟩
    obtain ⟨hlt, hunwritten⟩ := h.spent c hbefore
    exact hspent c hlt hunwritten

/-- A step that puts a call that waited on the wire of transport `t`. -/
theorem Books.put (h : s.Books) (horderly : s'.client.Orderly) {c : Nat} {t : TransportID}
    (hunwritten : s.client.unwritten = c :: s'.client.unwritten)
    (hcall : s'.client.nextCall = s.client.nextCall)
    (hnext : s'.client.nextTransport = s.client.nextTransport)
    (ht : t < s.client.nextTransport)
    (hwire : (s'.wires t).calls = (s.wires t).calls ++ [c])
    (hwires : ∀ u, u ≠ t → (s'.wires u).calls = (s.wires u).calls)
    (hanswered : s'.answeredCalls = s.answeredCalls) : s'.Books := by
  have hc : c ∈ s.client.unwritten := by
    rw [hunwritten]
    exact List.mem_cons_self
  have hnotWire : ∀ u, c ∉ (s.wires u).calls := fun u hu =>
    (h.spent c (Or.inl ⟨u, hu⟩)).2 hc
  have hnotAnswered : c ∉ s.answeredCalls := fun hans => (h.spent c (Or.inr hans)).2 hc
  have hnodup := h.orderly.nodup
  rw [hunwritten, List.nodup_cons] at hnodup
  have hspent : ∀ d, (∃ u, d ∈ (s'.wires u).calls) →
      (∃ u, d ∈ (s.wires u).calls) ∨ d = c := by
    rintro d ⟨u, hd⟩
    by_cases hu : u = t
    · rw [hu, hwire, List.mem_append, List.mem_singleton] at hd
      exact hd.imp_left fun hd => ⟨t, hd⟩
    · rw [hwires u hu] at hd
      exact Or.inl ⟨u, hd⟩
  exact
    { orderly := horderly
      fresh := by
        intro u hu
        rw [hnext] at hu
        have hut : u ≠ t := fun heq => absurd ht (by rw [← heq]; exact Nat.not_lt.mpr hu)
        rw [hwires u hut]
        exact h.fresh u hu
      nodup := by
        intro u
        rw [hanswered]
        by_cases hu : u = t
        · subst hu
          rw [hwire]
          have hperm : ((s.wires u).calls ++ [c] ++ s.answeredCalls).Perm
              (c :: ((s.wires u).calls ++ s.answeredCalls)) := by
            rw [List.append_assoc]
            exact List.perm_middle
          rw [hperm.nodup_iff, List.nodup_cons, List.mem_append, not_or]
          exact ⟨⟨hnotWire u, hnotAnswered⟩, h.nodup u⟩
        · rw [hwires u hu]
          exact h.nodup u
      apart := by
        intro u v huv d hd hd'
        by_cases hu : u = t
        · subst hu
          rw [hwires v (Ne.symm huv)] at hd'
          rw [hwire, List.mem_append, List.mem_singleton] at hd
          rcases hd with hd | rfl
          · exact h.apart u v huv hd hd'
          · exact hnotWire v hd'
        · rw [hwires u hu] at hd
          by_cases hv : v = t
          · subst hv
            rw [hwire, List.mem_append, List.mem_singleton] at hd'
            rcases hd' with hd' | rfl
            · exact h.apart u v huv hd hd'
            · exact hnotWire u hd
          · rw [hwires v hv] at hd'
            exact h.apart u v huv hd hd'
      spent := by
        intro d hd
        rw [hanswered] at hd
        rw [hcall]
        have hbefore : ((∃ u, d ∈ (s.wires u).calls) ∨ d ∈ s.answeredCalls) ∨ d = c := by
          rcases hd with hd | hd
          · exact (hspent d hd).imp_left Or.inl
          · exact Or.inl (Or.inr hd)
        rcases hbefore with hbefore | rfl
        · obtain ⟨hlt, hwaits⟩ := h.spent d hbefore
          refine ⟨hlt, fun hd' => hwaits ?_⟩
          rw [hunwritten]
          exact List.mem_cons_of_mem _ hd'
        · exact ⟨h.orderly.lt d hc, hnodup.1⟩ }

/-! ### What is owed -/

/-- Nothing waits, and every answer still to come is let pass. -/
structure Passes (s : System) (t : TransportID) : Prop where
  abandoned : s.client.answers.abandoned = (s.wires t).unanswered.length
  unsent : (s.wires t).outgoing.length ≤ s.client.unsent.count t

/-- Of the answers still to come the last, `w`, is the one that `p` waits for. -/
structure Waits (s : System) (t : TransportID) (p : Pending) (front : List Written)
    (w : Written) : Prop where
  wire : (s.wires t).unanswered = front ++ [w]
  call : w.call = p.call
  command : w.command = p.command
  kept : w.kept = p.rows
  abandoned : s.client.answers.abandoned = front.length
  first : front ≠ [] → w.rows = [] ∧ w.kept = []
  unsent : (s.wires t).outgoing.length ≤ s.client.unsent.count t + 1
  lost : w.kept = w.rows ∨ s.client.answers.strayKey = none ∧ LostStray s.answered t w

/-- What waits is the last that was written, and nothing is out after it. -/
theorem Waits.outgoing_nil {t : TransportID} {p : Pending} {front : List Written} {w : Written}
    (h : s.Waits t p front w)
    (hsent : ((s.wires t).outgoing.map Written.call).contains p.call = false) :
    (s.wires t).outgoing = [] := by
  have hwire := h.wire
  rw [Wire.unanswered] at hwire
  rcases List.eq_nil_or_concat (s.wires t).outgoing with hnil | ⟨outgoing, v, hlast⟩
  · exact hnil
  · rw [hlast, List.concat_eq_append, ← List.append_assoc] at hwire
    obtain ⟨-, hv⟩ := List.append_inj' hwire rfl
    have hmem : (s.wires t).outgoing.map Written.call |>.contains p.call := by
      rw [List.contains_iff_mem, hlast, ← h.call, List.mem_map]
      refine ⟨v, by simp, ?_⟩
      rw [List.singleton_inj.mp hv]
    rw [hmem] at hsent
    cases hsent

/-- The answer `a` to `p` has come, and late rows are waited for. -/
structure Holds (integerOf : Str → Option Int) (s : System) (t : TransportID) (p : Pending)
    (held : Held) (a : Answered) : Prop where
  late : ∃ late, lateRowsOf p.command = some late ∧ held.keys = late.keys
  wire : (s.wires t).unanswered = []
  abandoned : s.client.answers.abandoned = 0
  mem : a ∈ s.answered
  transport : a.transport = t
  command : a.command = p.command
  kept : a.kept = p.rows
  answer : HasAnswer integerOf s.answered p.call (.ok p.rows)

/-- What the client takes the lines of transport `t` for. -/
inductive Owes (integerOf : Str → Option Int) (s : System) (t : TransportID) : Prop
  | passes (hp : s.client.answers.pending = none) (h : s.Passes t)
  | waits (p : Pending) (front : List Written) (w : Written)
      (hp : s.client.answers.pending = some p) (hheld : p.held = none) (h : s.Waits t p front w)
  | holds (p : Pending) (held : Held) (a : Answered) (hp : s.client.answers.pending = some p)
      (hheld : p.held = some held) (h : s.Holds integerOf t p held a)

section

variable {integerOf : Str → Option Int} {t : TransportID} {p : Pending}

theorem Owes.of_idle (h : s.Owes integerOf t) (hp : s.client.answers.pending = none) :
    s.Passes t := by
  rcases h with ⟨-, h⟩ | ⟨q, front, w, hq, -, -⟩ | ⟨q, held, a, hq, -, -⟩
  · exact h
  · rw [hp] at hq
    cases hq
  · rw [hp] at hq
    cases hq

theorem Owes.of_waiting (h : s.Owes integerOf t) (hp : s.client.answers.pending = some p)
    (hheld : p.held = none) : ∃ front w, s.Waits t p front w := by
  rcases h with ⟨hq, -⟩ | ⟨q, front, w, hq, -, h⟩ | ⟨q, held, a, hq, hheld', -⟩
  · rw [hp] at hq
    cases hq
  · rw [hp, Option.some.injEq] at hq
    subst hq
    exact ⟨front, w, h⟩
  · rw [hp, Option.some.injEq] at hq
    subst hq
    rw [hheld] at hheld'
    cases hheld'

theorem Owes.of_held (h : s.Owes integerOf t) (hp : s.client.answers.pending = some p)
    {held : Held} (hheld : p.held = some held) : ∃ a, s.Holds integerOf t p held a := by
  rcases h with ⟨hq, -⟩ | ⟨q, front, w, hq, hheld', -⟩ | ⟨q, held', a, hq, hheld', h⟩
  · rw [hp] at hq
    cases hq
  · rw [hp, Option.some.injEq] at hq
    subst hq
    rw [hheld] at hheld'
    cases hheld'
  · rw [hp, Option.some.injEq] at hq
    subst hq
    rw [hheld, Option.some.injEq] at hheld'
    subst hheld'
    exact ⟨a, h⟩

/-- What is owed turns on the answers and on the wire. -/
theorem Owes.congr (h : s.Owes integerOf t) (hanswers : s'.client.answers = s.client.answers)
    (hunsent : s'.client.unsent = s.client.unsent)
    (hwire : (s'.wires t).unanswered = (s.wires t).unanswered)
    (houtgoing : (s'.wires t).outgoing.length ≤ (s.wires t).outgoing.length)
    {more : List Answered} (hanswered : s'.answered = s.answered ++ more) :
    s'.Owes integerOf t := by
  rcases h with ⟨hp, h⟩ | ⟨p, front, w, hp, hheld, h⟩ | ⟨p, held, a, hp, hheld, h⟩
  · refine .passes (by rw [hanswers, hp]) ⟨?_, ?_⟩
    · rw [hanswers, hwire, h.abandoned]
    · rw [hunsent]
      exact Nat.le_trans houtgoing h.unsent
  · refine .waits p front w (by rw [hanswers, hp]) hheld
      { h with
        wire := hwire.trans h.wire
        abandoned := by rw [hanswers, h.abandoned]
        unsent := ?_
        lost := ?_ }
    · rw [hunsent]
      exact Nat.le_trans houtgoing h.unsent
    · rw [hanswers, hanswered]
      exact h.lost.imp_right fun hlost => ⟨hlost.1, hlost.2.mono more⟩
  · refine .holds p held a (by rw [hanswers, hp]) hheld
      { h with
        wire := hwire.trans h.wire
        abandoned := by rw [hanswers, h.abandoned]
        mem := ?_
        answer := ?_ }
    · rw [hanswered]
      exact List.mem_append_left _ h.mem
    · rw [hanswered]
      exact h.answer.mono more

end

structure Paired (integerOf : Str → Option Int) (s : System) : Prop where
  books : s.Books
  owes : ∀ t, s.client.transport = some t → s.Owes integerOf t
  stray : ∀ t key, s.client.transport = some t → s.client.answers.strayKey = some key →
    ∃ a ∈ s.answered, a.transport = t ∧ Vain key a
  told : ∀ o ∈ s.client.trace, ∀ call result, o.answer? = some (call, result) →
    HasAnswer integerOf s.answered call result

variable {integerOf : Str → Option Int}

theorem paired_init : ({} : System).Paired integerOf where
  books := books_init
  owes t h := by cases h
  stray t key h := by cases h
  told o h := by cases h

/-- What was told stays so, and nothing is told anew that is an answer. -/
theorem told_append (h : s.Paired integerOf) (out : List Output)
    (htrace : s'.client.trace = s.client.trace ++ out)
    (hout : ∀ o ∈ out, ∀ call result, o.answer? = some (call, result) →
      HasAnswer integerOf s'.answered call result) {more : List Answered}
    (hanswered : s'.answered = s.answered ++ more) :
    ∀ o ∈ s'.client.trace, ∀ call result, o.answer? = some (call, result) →
      HasAnswer integerOf s'.answered call result := by
  intro o ho call result hanswer
  rw [htrace, List.mem_append] at ho
  rcases ho with ho | ho
  · rw [hanswered]
    exact (h.told o ho call result hanswer).mono more
  · exact hout o ho call result hanswer

/-- A step that leaves the client's wire alone, and that of its transport as it is. -/
theorem Paired.kept (h : s.Paired integerOf) (k : s.client.Kept s'.client) (hbooks : s'.Books)
    (hwires : ∀ t, s.client.transport = some t ∨ s.client.nextTransport ≤ t →
      s'.wires t = s.wires t)
    {more : List Answered} (hanswered : s'.answered = s.answered ++ more) :
    s'.Paired integerOf where
  books := hbooks
  owes t ht := by
    rcases k.wires with hgone | ⟨htransport, hanswers, -, hunsent, -, -⟩ |
      ⟨htransport, -, hanswers, -, -, hunsent⟩
    · rw [hgone] at ht
      cases ht
    · rw [htransport] at ht
      have hwire := hwires t (Or.inl ht)
      exact (h.owes t ht).congr hanswers hunsent (by rw [hwire]) (by rw [hwire]) hanswered
    · rw [htransport, Option.some.injEq] at ht
      subst ht
      have hwire := hwires _ (Or.inr (Nat.le_refl s.client.nextTransport))
      have hempty : (s'.wires s.client.nextTransport).unanswered = [] := by
        rw [hwire]
        exact List.map_eq_nil_iff.mp (h.books.fresh _ (Nat.le_refl _))
      refine .passes (by rw [hanswers]) ⟨by rw [hanswers, hempty]; rfl, ?_⟩
      rw [(List.append_eq_nil_iff.mp hempty).2]
      exact Nat.zero_le _
  stray t key ht hkey := by
    rcases k.wires with hgone | ⟨htransport, hanswers, -, -, -, -⟩ | ⟨-, -, hanswers, -, -, -⟩
    · rw [hgone] at ht
      cases ht
    · rw [htransport] at ht
      rw [hanswers] at hkey
      obtain ⟨a, ha, hvain⟩ := h.stray t key ht hkey
      rw [hanswered]
      exact ⟨a, List.mem_append_left _ ha, hvain⟩
    · rw [hanswers] at hkey
      cases hkey
  told := by
    obtain ⟨out, hout, hnone⟩ := k.trace
    refine told_append h out hout ?_ hanswered
    intro o ho call result hanswer
    rw [hnone o ho] at hanswer
    cases hanswer

end System

end Teamspeak.Query
