import Teamspeak.Query.Client.WellFormed

/-!
# Earlier connections and the one there is

An event is `Stale` if it comes of a transport or of an attempt other than the client's
own.  The one connecting or connected is to be `Intact` after it.

* `intact_iff`: it is if and only if the event is `Harmless`: no transport that was once
  installed closes, no attempt given up fails while another is connecting, no line that
  is not inert comes, and no write of an earlier command fails.
* `isolated_iff`: so it is along every run.
-/

namespace Teamspeak.Query

namespace Client

/-- An event of a transport or an attempt other than the client's own. -/
def Stale (s : Client) : Event → Prop
  | .line t _ => s.transport ≠ some t
  | .closes t => s.transport ≠ some t
  | .lateSendFails t => s.transport ≠ some t
  | .opened k _ _ => k ≠ s.generation
  | .openFails k => k ≠ s.generation
  | .discarded k => k ≠ s.generation
  | .goesOn k => k ≠ s.generation
  | .fails k => k ≠ s.generation
  | _ => False

/-- What is connecting or connected in `s` is as it was in `s'`: its transport is neither
uninstalled nor closed, none of its commands fails, its answers and its status are the
same, and its end is not announced. -/
structure Intact (s s' : Client) : Prop where
  status : s'.status = s.status
  transport : s'.transport = s.transport
  untouched : ∀ t, s.transport = some t →
    (t ∈ s'.closing ↔ t ∈ s.closing) ∧ (t ∈ s'.ended ↔ t ∈ s.ended)
  answers : s.transport ≠ none → s'.answers = s.answers
  running : s'.running = s.running
  queue : s.queue <+: s'.queue
  trace : ∃ out, s'.trace = s.trace ++ out ∧
    ∀ o ∈ out, (∀ call result, o ≠ .settled call result) ∧ o.attempt? ≠ some s.generation

/-- When a stale event spoils nothing. -/
def Harmless (options : Options) (s : Client) : Event → Prop
  | .line t text => s.delivers options t = true → s.transport = none ∨ Inert s.answers text
  | .closes t => t < s.nextTransport → t ∉ s.ended → t ∉ s.wired
  | .lateSendFails t => t ∈ s.unsent → s.transport = none
  | .fails k => (∃ cause, s.attempts k = .failed cause) → s.status ≠ .connecting
  | _ => True

variable {s s' : Client}

theorem Intact.refl (s : Client) : Intact s s where
  status := rfl
  transport := rfl
  untouched _ _ := ⟨Iff.rfl, Iff.rfl⟩
  answers _ := rfl
  running := rfl
  queue := List.prefix_rfl
  trace := ⟨[], by simp⟩

/-- Where an attempt stands is not the connection's. -/
theorem Intact.setStage (h : Intact s s') (k : Nat) (stage : Stage) :
    Intact s (s'.setStage k stage) :=
  ⟨h.status, h.transport, h.untouched, h.answers, h.running, h.queue, h.trace⟩

/-! ### Lines -/

theorem line_intact_iff (h : s.WellFormed) (options : Options) (integerOf : Str → Option Int)
    (t : TransportID) (text : Str) :
    Intact s (s.line options integerOf t text) ↔ Harmless options s (.line t text) := by
  rw [line, Harmless]
  split
  · rename_i hdelivers
    constructor
    · intro hintact _
      by_cases ht : s.transport = none
      · exact Or.inl ht
      · right
        rw [← handleLine_answers_iff integerOf (options.kind = .web)]
        have hsame := hintact.answers ht
        rw [take] at hsame
        split at hsame
        · exact hsame
        · exact hsame
    · intro hharmless
      have hsettled :
          (handleLine integerOf (options.kind = .web) s.answers text).settled = none := by
        rcases hharmless hdelivers with ht | hinert
        · exact (handleLine_of_idle (h.idle ht).1 text).2
        · exact handleLine_settled_of_inert hinert
      rw [take, hsettled]
      exact
        { status := rfl
          transport := rfl
          untouched := fun _ _ => ⟨Iff.rfl, Iff.rfl⟩
          answers := fun ht =>
            (handleLine_answers_iff integerOf _).mpr ((hharmless hdelivers).resolve_left ht)
          running := rfl
          queue := List.prefix_rfl
          trace := by
            refine ⟨_, rfl, ?_⟩
            intro o ho
            obtain ⟨cmd, -, rfl⟩ := List.mem_map.mp ho
            exact ⟨fun _ _ h => (by cases h), fun h => (by cases h)⟩ }
  · rename_i hdelivers
    exact ⟨fun _ hd => absurd hd hdelivers, fun _ => Intact.refl s⟩

theorem lateSendFails_intact_iff (options : Options) (t : TransportID) :
    Intact s (s.lateSendFails t) ↔ Harmless options s (.lateSendFails t) := by
  rw [lateSendFails, Harmless]
  split
  · rename_i hunsent
    constructor
    · intro hintact _
      by_contra ht
      have := congrArg Answers.abandoned (hintact.answers ht)
      simp only at this
      omega
    · intro hharmless
      exact
        { status := rfl
          transport := rfl
          untouched := fun _ _ => ⟨Iff.rfl, Iff.rfl⟩
          answers := fun ht => absurd (hharmless hunsent) ht
          running := rfl
          queue := List.prefix_rfl
          trace := ⟨[], by simp⟩ }
  · rename_i hunsent
    exact ⟨fun _ hu => absurd hu hunsent, fun _ => Intact.refl s⟩

/-! ### Closes and failures -/

theorem closes_intact_iff (options : Options) {t : TransportID} (hstale : s.transport ≠ some t)
    (hlive : s.status ≠ .disconnected) :
    Intact s (s.closes options t) ↔ Harmless options s (.closes t) := by
  rw [closes, Harmless]
  split
  · rename_i hopen
    dsimp only
    split
    · rename_i hwired
      constructor
      · intro hintact
        have := hintact.status
        rw [status_handleClose] at this
        exact absurd this.symm hlive
      · intro hharmless
        exact absurd hwired (hharmless hopen.1 hopen.2)
    · rename_i hwired
      refine ⟨fun _ _ _ => hwired, fun _ => ?_⟩
      exact
        { status := rfl
          transport := rfl
          untouched := by
            intro u hu
            refine ⟨Iff.rfl, ?_⟩
            have hut : u ≠ t := fun h => hstale (h ▸ hu)
            simp [hut]
          answers := fun _ => rfl
          running := rfl
          queue := List.prefix_rfl
          trace := ⟨[], by simp⟩ }
  · rename_i hopen
    exact ⟨fun _ hnext hended => absurd ⟨hnext, hended⟩ hopen, fun _ => Intact.refl s⟩

theorem fails_intact_iff (options : Options) (k : Nat) (hlive : s.status ≠ .disconnected) :
    Intact s (s.fails options k) ↔ Harmless options s (.fails k) := by
  rw [fails, Harmless]
  split
  · rename_i cause hk
    constructor
    · intro hintact _ hconnecting
      have := hintact.status
      rw [setStage, status_failConnection options k (by simp [hconnecting])] at this
      exact hlive this.symm
    · intro hharmless
      have hconnected : s.status = .connected := by
        cases hs : s.status with
        | disconnected => exact absurd hs hlive
        | connecting => exact absurd hs (hharmless ⟨cause, hk⟩)
        | connected => rfl
      rw [failConnection, if_pos hconnected]
      exact (Intact.refl s).setStage k .finished
  · rename_i hk
    exact ⟨fun _ hf => absurd hf.choose_spec (hk _), fun _ => Intact.refl s⟩

/-! ### Attempts given up -/

theorem mem_closeTransport (options : Options) {t u : TransportID} (h : t ≠ u) (s : Client) :
    (t ∈ (s.closeTransport options u).closing ↔ t ∈ s.closing) ∧
      (t ∈ (s.closeTransport options u).ended ↔ t ∈ s.ended) := by
  rw [closeTransport]
  refine ⟨List.mem_cons.trans (or_iff_right h), ?_⟩
  by_cases hweb : options.kind = .web
  · simp only [hweb, if_true]
    exact List.mem_cons.trans (or_iff_right h)
  · simp only [hweb, if_false]

theorem opened_intact (h : s.WellFormed) (options : Options) {k : Nat} (notifications alive : Bool)
    (hstale : k ≠ s.generation) : Intact s (s.opened options k notifications alive) := by
  rw [opened]
  split
  · dsimp only
    rw [if_pos (Or.inl hstale)]
    apply Intact.setStage
    exact
      { status := rfl
        transport := rfl
        untouched := by
          intro t ht
          have hne : t ≠ s.nextTransport := Nat.ne_of_lt (h.wired t (h.installed t ht).1)
          obtain ⟨hclosing, hended⟩ := mem_closeTransport options hne
            { s with
              nextTransport := s.nextTransport + 1
              ended := if alive then s.ended else s.nextTransport :: s.ended }
          refine ⟨hclosing, hended.trans ?_⟩
          cases alive with
          | true => exact Iff.rfl
          | false => exact List.mem_cons.trans (or_iff_right hne)
        answers := fun _ => rfl
        running := rfl
        queue := List.prefix_rfl
        trace := ⟨[], by simp [closeTransport]⟩ }
  · exact Intact.refl s

theorem goesOn_intact {k : Nat} (hstale : k ≠ s.generation) : Intact s (s.goesOn k) := by
  rw [goesOn]
  split
  · apply Intact.setStage
    exact
      { status := rfl
        transport := rfl
        untouched := fun _ _ => ⟨Iff.rfl, Iff.rfl⟩
        answers := fun _ => rfl
        running := rfl
        queue := List.prefix_append _ _
        trace := ⟨[], by simp [exec]⟩ }
  · rw [if_neg hstale]
    exact (Intact.refl s).setStage k .finished
  · exact Intact.refl s

/-! ### Every stale event -/

/-- A stale event leaves what is connecting or connected intact if and only if it is
harmless. -/
theorem intact_iff (h : s.WellFormed) (integerOf : Str → Option Int) (options : Options)
    {e : Event} (hstale : s.Stale e) (hlive : s.status ≠ .disconnected) :
    Intact s (step integerOf options s e) ↔ Harmless options s e := by
  cases e with
  | line t text => exact line_intact_iff h options integerOf t text
  | closes t => exact closes_intact_iff options hstale hlive
  | lateSendFails t => exact lateSendFails_intact_iff options t
  | fails k => exact fails_intact_iff options k hlive
  | opened k notifications alive =>
    exact iff_of_true (opened_intact h options notifications alive hstale) trivial
  | openFails k =>
    refine iff_of_true ?_ trivial
    rw [step, openFails]
    split
    · exact (Intact.refl s).setStage k _
    · exact Intact.refl s
  | discarded k =>
    refine iff_of_true ?_ trivial
    rw [step, discarded]
    split
    · exact (Intact.refl s).setStage k _
    · exact Intact.refl s
  | goesOn k => exact iff_of_true (goesOn_intact hstale) trivial
  | connect => exact hstale.elim
  | disconnect => exact hstale.elim
  | tornDown => exact hstale.elim
  | retry => exact hstale.elim
  | loopEnds => exact hstale.elim
  | exec line => exact hstale.elim
  | turn aborted => exact hstale.elim
  | write => exact hstale.elim
  | sendFails => exact hstale.elim
  | gaveUp sending => exact hstale.elim
  | graceEnds => exact hstale.elim

/-- A stale event leaves what is connecting or connected intact. -/
def Isolated (integerOf : Str → Option Int) (options : Options) (s : Client) (e : Event) : Prop :=
  s.Stale e → s.status ≠ .disconnected → Intact s (step integerOf options s e)

/-- **In every run, no event of an earlier connection changes the one there is** if and
only if each that comes while there is one is harmless. -/
theorem isolated_iff (integerOf : Str → Option Int) (options : Options) (es : List Event) :
    Along (step integerOf options) (Isolated integerOf options) {} es ↔
      Along (step integerOf options)
        (fun s e => s.Stale e → s.status ≠ .disconnected → Harmless options s e) {} es := by
  refine along_congr (I := WellFormed) ?_ ?_ wellFormed_init
  · intro s e h _
    exact wellFormed_step integerOf options s e h
  · intro s e h
    refine forall_congr' fun hstale => forall_congr' fun hlive => ?_
    exact intact_iff h integerOf options hstale hlive

/-- A first attempt is refused its `version`, and its transport, 0, is left to close; a
second has its own. -/
def secondAttempt : List Event :=
  [.connect, .opened 1 true true, .goesOn 1, .turn false, .write,
    .line 0 (.of "error id=1 msg=x"), .fails 1, .connect, .opened 2 true true]

/-- The transport of the first attempt closes, and the second has lost its own. -/
theorem isolated_late_close :
    ¬ Along (step (fun _ => none) { kind := .tcp }) (Isolated (fun _ => none) { kind := .tcp })
      {} (secondAttempt ++ [.closes 0]) := by
  intro h
  have hstale : (run (step (fun _ => none) { kind := .tcp }) {} secondAttempt).transport ≠
      some 0 := by decide
  have hintact := (along_append.mp h).2.1 hstale (by decide)
  have htransport := hintact.transport
  revert htransport
  decide

end Client

end Teamspeak.Query
