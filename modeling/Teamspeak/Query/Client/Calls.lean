import Teamspeak.Query.Client.Server
import Teamspeak.Query.Client.WellFormed

/-!
# The calls of a client and its wire

* `unwritten`: the calls that have not been put on the wire.
* `Orderly`: the command on the wire is the call that runs, over the transport installed;
  transports are numbered in the order they come, and a new one is found on no list.
* `Kept s s'`: the step from `s` to `s'` puts nothing on the wire, reads nothing from it
  and settles no call with an answer.
* `kept_step`: so are the client's own events, but for the end of a wait for late rows.
-/

namespace Teamspeak.Query

/-- The call and the answer that an output settles it with, if it is one. -/
def Output.answer? : Output → Option (Nat × Result)
  | .settled call (.ok rows) => some (call, .ok rows)
  | .settled call (.error (.refused failure)) => some (call, .error (.refused failure))
  | _ => none

/-- The answer that an output settles its call with is the result it shows. -/
theorem Output.eq_of_answer? {call c : Nat} {result answer : Result}
    (h : Output.answer? (.settled call result) = some (c, answer)) :
    call = c ∧ result = answer := by
  rw [← Prod.mk.injEq]
  cases result with
  | ok rows => exact Option.some.inj h
  | error cause =>
    cases cause with
    | refused failure => exact Option.some.inj h
    | notConnected => cases h
    | gaveUp => cases h
    | sendFailed => cases h
    | openFailed => cases h
    | eventsUnsupported => cases h

theorem Stage.Next.opening {answered : Prop} {a b : Stage} (h : Stage.Next answered a b)
    (hb : b = .opening) : a = .opening := by
  subst hb
  cases h with
  | same => rfl

/-- No attempt begins for a call that settles. -/
theorem Stage.eq_opening_of_hear (call : Nat) (result : Result) {stage : Stage}
    (h : stage.hear call result = .opening) : stage = .opening :=
  (Stage.next_hear (Or.inl trivial : True ∨ _) call stage).opening h

namespace Client

/-- The calls that have not been put on the wire. -/
def unwritten (s : Client) : List Nat :=
  (if s.answers.pending = none then s.running.toList.map Call.id else []) ++
    s.queue.map Call.id

structure Orderly (s : Client) : Prop extends s.WellFormed where
  nodup : s.unwritten.Nodup
  lt : ∀ c ∈ s.unwritten, c < s.nextCall
  onWire : ∀ p, s.answers.pending = some p →
    s.transport = some p.transport ∧ p.call < s.nextCall ∧ s.running.map Call.id = some p.call
  closing : ∀ t ∈ s.closing, t < s.nextTransport
  isOpen : ∀ t, s.transport = some t → t ∉ s.closing
  unsent : ∀ t ∈ s.unsent, t < s.nextTransport
  opening : s.attempts s.generation = .opening → s.transport = none

theorem orderly_init : ({} : Client).Orderly where
  toWellFormed := wellFormed_init
  nodup := List.nodup_nil
  lt _ h := by cases h
  onWire _ h := by cases h
  closing _ h := by cases h
  isOpen _ h := by cases h
  unsent _ h := by cases h
  opening _ := rfl

variable {s s' : Client}

theorem unwritten_of_idle (h : s.answers.pending = none) :
    s.unwritten = s.running.toList.map Call.id ++ s.queue.map Call.id := by
  rw [unwritten, if_pos h]

theorem unwritten_of_pending (h : s.answers.pending ≠ none) :
    s.unwritten = s.queue.map Call.id := by
  rw [unwritten, if_neg h, List.nil_append]

/-- The calls in line are unwritten. -/
theorem queue_sublist_unwritten (s : Client) : (s.queue.map Call.id).Sublist s.unwritten :=
  List.sublist_append_right _ _

/-! ### Steps that leave the wire alone -/

/-- What becomes of the transport installed, with what is on its wire. -/
inductive Wires (s s' : Client) : Prop
  | gone (h : s'.transport = none)
  | same (htransport : s'.transport = s.transport) (hanswers : s'.answers = s.answers)
      (hrunning : s.answers.pending = none ∨ s'.running = s.running)
      (hunsent : s'.unsent = s.unsent)
      (hopening : s'.attempts s'.generation = .opening → s.attempts s.generation = .opening)
      (hclosing : ∀ t, s.transport = some t → t ∈ s'.closing → t ∈ s.closing)
  | fresh (htransport : s'.transport = some s.nextTransport)
      (hnext : s.nextTransport < s'.nextTransport) (hanswers : s'.answers = {})
      (hopening : s'.attempts s'.generation ≠ .opening)
      (hclosing : s'.closing = s.closing) (hunsent : s'.unsent = s.unsent)

structure Kept (s s' : Client) : Prop where
  wires : Wires s s'
  calls : (s'.unwritten.Sublist s.unwritten ∧ s'.nextCall = s.nextCall) ∨
    s'.unwritten = s.unwritten ++ [s.nextCall] ∧ s'.nextCall = s.nextCall + 1
  trace : ∃ out, s'.trace = s.trace ++ out ∧ ∀ o ∈ out, o.answer? = none
  nextTransport : s.nextTransport ≤ s'.nextTransport
  closing : ∀ t ∈ s'.closing, t ∈ s.closing ∨ t < s'.nextTransport
  unsent : ∀ t ∈ s'.unsent, t ∈ s.unsent

/-- The numbers of calls go on from one to the next. -/
theorem Kept.nextCall (k : Kept s s') : s.nextCall ≤ s'.nextCall := by
  rcases k.calls with ⟨-, h⟩ | ⟨-, h⟩
  · exact Nat.le_of_eq h.symm
  · rw [h]
    exact Nat.le_succ _

/-- A call with no number yet, or one that is written, is not one that waits. -/
theorem Kept.not_mem_unwritten (k : Kept s s') {c : Nat} (hlt : c < s.nextCall)
    (h : c ∉ s.unwritten) : c ∉ s'.unwritten := by
  rcases k.calls with ⟨hsub, -⟩ | ⟨happend, -⟩
  · exact fun hc => h (hsub.subset hc)
  · rw [happend, List.mem_append, List.mem_singleton]
    rintro (hc | hc)
    · exact h hc
    · omega

theorem Orderly.kept (h : s.Orderly) (k : Kept s s') (hwf : s'.WellFormed) : s'.Orderly where
  toWellFormed := hwf
  nodup := by
    rcases k.calls with ⟨hsub, -⟩ | ⟨happend, -⟩
    · exact h.nodup.sublist hsub
    · rw [happend]
      refine h.nodup.append (List.nodup_singleton _) ?_
      intro c hc hc'
      rw [List.mem_singleton] at hc'
      exact absurd (h.lt c hc) (by omega)
  lt c hc := by
    rcases k.calls with ⟨hsub, hnext⟩ | ⟨happend, hnext⟩
    · rw [hnext]
      exact h.lt c (hsub.subset hc)
    · rw [happend, List.mem_append, List.mem_singleton] at hc
      rw [hnext]
      rcases hc with hc | rfl
      · exact Nat.lt_succ_of_lt (h.lt c hc)
      · exact Nat.lt_succ_self _
  onWire p hp := by
    rcases k.wires with hgone | ⟨htransport, hanswers, hrunning, -, -, -⟩ |
      ⟨-, -, hanswers, -, -, -⟩
    · rw [(hwf.idle hgone).1] at hp
      cases hp
    · rw [hanswers] at hp
      obtain ⟨ht, hlt, hcall⟩ := h.onWire p hp
      refine ⟨htransport.trans ht, Nat.lt_of_lt_of_le hlt k.nextCall, ?_⟩
      rcases hrunning with hnone | hsame
      · rw [hnone] at hp
        cases hp
      · rw [hsame]
        exact hcall
    · rw [hanswers] at hp
      cases hp
  closing t ht := by
    rcases k.closing t ht with ht | ht
    · exact Nat.lt_of_lt_of_le (h.closing t ht) k.nextTransport
    · exact ht
  isOpen t ht := by
    rcases k.wires with hgone | ⟨htransport, -, -, -, -, hclosing⟩ |
      ⟨htransport, -, -, -, hclosing, -⟩
    · rw [hgone] at ht
      cases ht
    · rw [htransport] at ht
      exact fun hmem => h.isOpen t ht (hclosing t ht hmem)
    · rw [htransport, Option.some.injEq] at ht
      subst ht
      rw [hclosing]
      exact fun hmem => Nat.lt_irrefl _ (h.closing _ hmem)
  unsent t ht := Nat.lt_of_lt_of_le (h.unsent t (k.unsent t ht)) k.nextTransport
  opening hs := by
    rcases k.wires with hgone | ⟨htransport, -, -, -, hopening, -⟩ | ⟨-, -, -, hopening, -, -⟩
    · exact hgone
    · rw [htransport]
      exact h.opening (hopening hs)
    · exact absurd hs hopening

/-- A step that concerns the calls alone: each keeps its number, and the one on the wire is
the one that runs. -/
theorem Orderly.quiet (h : s.Orderly) (q : Quiet s s') (hsub : s'.unwritten.Sublist s.unwritten)
    (hnext : s'.nextCall = s.nextCall)
    (honWire : ∀ p, s'.answers.pending = some p →
      s.transport = some p.transport ∧ p.call < s.nextCall ∧
        s'.running.map Call.id = some p.call)
    (hunsent : ∀ t ∈ s'.unsent, t < s.nextTransport) : s'.Orderly where
  toWellFormed := h.toWellFormed.quiet q
  nodup := h.nodup.sublist hsub
  lt c hc := by
    rw [hnext]
    exact h.lt c (hsub.subset hc)
  onWire p hp := by
    rw [q.transport, hnext]
    exact honWire p hp
  closing t ht := by
    rw [q.closing] at ht
    rw [q.nextTransport]
    exact h.closing t ht
  isOpen t ht := by
    rw [q.transport] at ht
    rw [q.closing]
    exact h.isOpen t ht
  unsent t ht := by
    rw [q.nextTransport]
    exact hunsent t ht
  opening hs := by
    rw [q.generation] at hs
    rw [q.transport]
    exact h.opening ((q.stages s.generation).opening hs)

/-! ### Going down -/

theorem transport_of_disconnected (h : s.WellFormed) (hs : s.status = .disconnected) :
    s.transport = none := by
  by_contra ht
  obtain ⟨t, ht⟩ := Option.ne_none_iff_exists'.mp ht
  exact (h.installed t ht).2 hs

/-- What comes after a step that left no transport, and concerns no call. -/
theorem Kept.down (k : Kept s s') {s'' : Client} (htransport : s''.transport = none)
    (hunwritten : s''.unwritten = s'.unwritten) (hcall : s''.nextCall = s'.nextCall)
    (htrace : ∃ out, s''.trace = s'.trace ++ out ∧ ∀ o ∈ out, o.answer? = none)
    (hnext : s''.nextTransport = s'.nextTransport)
    (hclosing : ∀ t ∈ s''.closing, t ∈ s'.closing ∨ t < s'.nextTransport)
    (hunsent : s''.unsent = s'.unsent) : Kept s s'' where
  wires := .gone htransport
  calls := by
    rw [hunwritten, hcall]
    exact k.calls
  trace := by
    obtain ⟨out, hout, hnone⟩ := k.trace
    obtain ⟨out', hout', hnone'⟩ := htrace
    refine ⟨out ++ out', by rw [hout', hout, List.append_assoc], ?_⟩
    intro o ho
    rcases List.mem_append.mp ho with ho | ho
    · exact hnone o ho
    · exact hnone' o ho
  nextTransport := by
    rw [hnext]
    exact k.nextTransport
  closing t ht := by
    rw [hnext]
    rcases hclosing t ht with ht | ht
    · exact k.closing t ht
    · exact Or.inr ht
  unsent t ht := by
    rw [hunsent] at ht
    exact k.unsent t ht

theorem Kept.closeTransport (k : Kept s s') (htransport : s'.transport = none)
    (options : Options) {t : TransportID} (ht : t < s'.nextTransport) :
    Kept s (s'.closeTransport options t) := by
  refine k.down htransport rfl rfl ⟨[], by simp [Client.closeTransport]⟩ rfl ?_ rfl
  intro u hu
  rcases List.mem_cons.mp hu with rfl | hu
  · exact Or.inr ht
  · exact Or.inl hu

theorem Kept.announceDisconnected (k : Kept s s') (htransport : s'.transport = none)
    (attempt : Nat) : Kept s (s'.announceDisconnected attempt) := by
  refine k.down htransport rfl rfl ⟨[.disconnected attempt], rfl, ?_⟩ rfl (fun _ h => Or.inl h)
    rfl
  intro o ho
  rw [List.mem_singleton.mp ho]
  rfl

/-- With no transport left, the command that ran fails. -/
theorem fail_kept {d : Client} (htransport : d.transport = none) (hqueue : d.queue = s.queue)
    (hcall : d.nextCall = s.nextCall) (htrace : d.trace = s.trace)
    (hnext : d.nextTransport = s.nextTransport) (hclosing : d.closing = s.closing)
    (hunsent : d.unsent = s.unsent) : Kept s d.fail := by
  have hfail : d.fail.queue = d.queue ∧ d.fail.nextCall = d.nextCall ∧
      d.fail.unsent = d.unsent ∧ ∃ out, d.fail.trace = d.trace ++ out ∧
        ∀ o ∈ out, o.answer? = none := by
    rw [fail]
    split
    · exact ⟨rfl, rfl, rfl, [], by simp⟩
    · rename_i call hcall
      refine ⟨rfl, rfl, rfl, [.settled call.id (.error .notConnected)], rfl, ?_⟩
      intro o ho
      rw [List.mem_singleton.mp ho]
      rfl
  obtain ⟨hqueue', hcall', hunsent', out, hout, hnone⟩ := hfail
  have hunwritten : d.fail.unwritten = s.queue.map Call.id := by
    rw [unwritten_of_idle d.fail_idle.1, d.fail_idle.2, hqueue', hqueue]
    rfl
  exact
    { wires := .gone (d.fail_quiet.transport.trans htransport)
      calls := by
        rw [hunwritten, hcall', hcall]
        exact Or.inl ⟨s.queue_sublist_unwritten, rfl⟩
      trace := ⟨out, by rw [hout, htrace], hnone⟩
      nextTransport := by rw [d.fail_quiet.nextTransport, hnext]
      closing := by
        rw [d.fail_quiet.closing, hclosing]
        exact fun _ h => Or.inl h
      unsent := by
        rw [hunsent', hunsent]
        exact fun _ h => h }

theorem kept_of_same (htransport : s'.transport = s.transport)
    (hanswers : s'.answers = s.answers)
    (hrunning : s'.running = s.running) (hqueue : s'.queue = s.queue)
    (hcall : s'.nextCall = s.nextCall) (hnext : s'.nextTransport = s.nextTransport)
    (hclosing : s'.closing = s.closing) (hunsent : s'.unsent = s.unsent)
    (hopening : s'.transport = none ∨
      (s'.attempts s'.generation = .opening → s.attempts s.generation = .opening))
    (htrace : ∃ out, s'.trace = s.trace ++ out ∧ ∀ o ∈ out, o.answer? = none) : Kept s s' where
  wires := by
    rcases hopening with hgone | hopening
    · exact .gone hgone
    · refine .same htransport hanswers (Or.inr hrunning) hunsent hopening ?_
      rw [hclosing]
      exact fun _ _ h => h
  calls := by
    refine Or.inl ⟨?_, hcall⟩
    rw [unwritten, unwritten, hanswers, hrunning, hqueue]
  trace := htrace
  nextTransport := Nat.le_of_eq hnext.symm
  closing := by
    rw [hclosing]
    exact fun _ h => Or.inl h
  unsent := by
    rw [hunsent]
    exact fun _ h => h

theorem Kept.refl (s : Client) : Kept s s :=
  kept_of_same rfl rfl rfl rfl rfl rfl rfl rfl (Or.inr id) ⟨[], by simp⟩

theorem Kept.setStage (k : Kept s s') (htransport : s'.transport = none) (j : Nat)
    (stage : Stage) : Kept s (s'.setStage j stage) :=
  k.down htransport rfl rfl ⟨[], by simp [Client.setStage]⟩ rfl (fun _ h => Or.inl h) rfl

theorem setStage_kept {j : Nat} {stage : Stage} (h : stage ≠ .opening) :
    Kept s (s.setStage j stage) := by
  refine kept_of_same rfl rfl rfl rfl rfl rfl rfl rfl (Or.inr ?_) ⟨[], by simp [setStage]⟩
  intro hopening
  change (s.setStage j stage).attempts s.generation = .opening at hopening
  rw [attempts_setStage] at hopening
  split at hopening
  · exact absurd hopening h
  · exact hopening

/-- A transport that has ended takes the connection down. -/
theorem handleClose_kept (options : Options) (ended : List TransportID) :
    Kept s (({ s with ended } : Client).handleClose options) := by
  have hdown : Kept s
      { s with ended, transport := none, closed := true, status := .disconnected }.fail :=
    fail_kept rfl rfl rfl rfl rfl rfl rfl
  have hgone : ({ s with ended, transport := none, closed := true, status := .disconnected } :
      Client).fail.transport = none := (fail_quiet _).transport
  rw [handleClose]
  split
  · exact kept_of_same rfl rfl rfl rfl rfl rfl rfl rfl (Or.inr id) ⟨[], by simp⟩
  · split
    · have := hdown.announceDisconnected hgone s.generation
      exact this.down hgone rfl rfl ⟨[], by simp⟩ rfl (fun _ h => Or.inl h) rfl
    · exact hdown

theorem kept_close {d : Client} (h : s.WellFormed) (options : Options) (hdown : Kept s d)
    (hgone : d.transport = none) (hnext : d.nextTransport = s.nextTransport) :
    Kept s (s.transport.elim d (d.closeTransport options)) ∧
      (s.transport.elim d (d.closeTransport options)).transport = none := by
  cases ht : s.transport with
  | none => exact ⟨hdown, hgone⟩
  | some t =>
    refine ⟨hdown.closeTransport hgone options ?_, hgone⟩
    rw [hnext]
    exact h.wired t (h.installed t ht).1

theorem failConnection_kept (h : s.WellFormed) (options : Options) (k : Nat) :
    Kept s (s.failConnection options k) ∧
      (s.status ≠ .connected → (s.failConnection options k).transport = none) := by
  rw [failConnection]
  split
  · rename_i hconnected
    exact ⟨.refl s, fun hs => absurd hconnected hs⟩
  · have hdown : Kept s
        { s with transport := none, closed := true, status := .disconnected }.fail :=
      fail_kept rfl rfl rfl rfl rfl rfl rfl
    obtain ⟨hclosed, hgone⟩ :=
      kept_close h options hdown (fail_quiet _).transport (fail_quiet _).nextTransport
    dsimp only
    split
    · exact ⟨hclosed.announceDisconnected hgone k, fun _ => hgone⟩
    · exact ⟨hclosed, fun _ => hgone⟩

theorem disconnect_kept (h : s.WellFormed) (options : Options) :
    Kept s (s.disconnect options) := by
  rw [disconnect]
  split
  · rename_i hdone
    have hstatus : s.status = .disconnected := by
      rcases hdone with hstopping | hstatus
      · exact (h.stopping hstopping).1
      · exact hstatus
    have hgone := transport_of_disconnected h hstatus
    exact kept_of_same rfl rfl rfl rfl rfl rfl rfl rfl (Or.inl hgone) ⟨[], by simp⟩
  · have hdown : Kept s
        { s with
          stopped := true, generation := s.generation + 1, status := .disconnected,
          stopping := some s.generation, transport := none, closed := true }.fail :=
      fail_kept rfl rfl rfl rfl rfl rfl rfl
    exact (kept_close h options hdown (fail_quiet _).transport (fail_quiet _).nextTransport).1

/-! ### The client's own events -/

theorem connect_kept (h : s.WellFormed) : Kept s s.connect := by
  rw [connect]
  split
  · rename_i hfree
    have hgone := transport_of_disconnected h hfree.2
    have hconnecting : Kept s
        { s with stopped := false, generation := s.generation + 1, status := .connecting } :=
      kept_of_same rfl rfl rfl rfl rfl rfl rfl rfl (Or.inl hgone) ⟨[], by simp⟩
    exact hconnecting.setStage hgone _ _
  · exact .refl s

theorem retry_kept (h : s.WellFormed) : Kept s s.retry := by
  rw [retry]
  split
  · rename_i hidle
    have hfree : s.stopping = none ∧ s.status = .disconnected := ⟨hidle.2.2.2.1, hidle.2.2.2.2⟩
    have hgone : s.connect.transport = none := by
      have hnone := transport_of_disconnected h hfree.2
      rw [connect, if_pos hfree]
      exact hnone
    exact (connect_kept h).down hgone rfl rfl ⟨[], by simp⟩ rfl (fun _ h => Or.inl h) rfl
  · exact .refl s

theorem opened_kept (h : s.Orderly) (options : Options) (k : Nat) (notifications alive : Bool) :
    Kept s (s.opened options k notifications alive) := by
  rw [opened]
  split
  · have hdiscarded : ∀ cause, Kept s
        ((({ s with
          nextTransport := s.nextTransport + 1
          ended := if alive then s.ended else s.nextTransport :: s.ended } :
            Client).closeTransport options s.nextTransport).setStage k (.discarding cause)) := by
      intro cause
      refine
        { wires := .same rfl rfl (Or.inr rfl) rfl ?_ ?_
          calls := Or.inl ⟨.refl _, rfl⟩
          trace := ⟨[], by simp [setStage, closeTransport]⟩
          nextTransport := Nat.le_succ _
          closing := ?_
          unsent := fun _ h => h }
      · change (setStage _ k _).attempts s.generation = .opening → _
        rw [attempts_setStage]
        split
        · exact fun hs => by cases hs
        · exact id
      · intro t ht hclosing
        rcases List.mem_cons.mp hclosing with rfl | hclosing
        · exact absurd (h.wired _ (h.installed _ ht).1) (Nat.lt_irrefl _)
        · exact hclosing
      · intro t ht
        rcases List.mem_cons.mp ht with rfl | ht
        · exact Or.inr (Nat.lt_succ_self _)
        · exact Or.inl ht
    dsimp only
    split
    · exact hdiscarded _
    · rename_i hcurrent
      rw [not_or, not_ne_iff] at hcurrent
      split
      · exact hdiscarded _
      · have hgone : s.transport = none := by
          apply h.opening
          rw [← hcurrent.1]
          assumption
        have hidle := h.idle hgone
        refine
          { wires := .fresh rfl (Nat.lt_succ_self _) rfl ?_ rfl rfl
            calls := Or.inl ⟨?_, rfl⟩
            trace := ⟨[], by simp [setStage]⟩
            nextTransport := Nat.le_succ _
            closing := fun _ h => Or.inl h
            unsent := fun _ h => h }
        · change (setStage _ k _).attempts s.generation ≠ .opening
          rw [attempts_setStage, if_pos hcurrent.1.symm]
          exact fun hs => by cases hs
        · rw [unwritten_of_idle hidle.1]
          exact .refl _
  · exact .refl s

theorem exec_kept (line : Str) : Kept s (s.exec line) where
  wires := .same rfl rfl (Or.inr rfl) rfl id fun _ _ h => h
  calls := by
    refine Or.inr ⟨?_, rfl⟩
    simp only [unwritten, exec, List.map_append, List.map_cons, List.map_nil, List.append_assoc]
    rfl
  trace := ⟨[], by simp [exec]⟩
  nextTransport := Nat.le_refl _
  closing _ h := Or.inl h
  unsent _ h := h

theorem goesOn_kept (k : Nat) : Kept s (s.goesOn k) := by
  rw [goesOn]
  split
  · rename_i cmd rest hk
    have hkept := s.exec_kept cmd.line
    refine
      { wires := .same rfl rfl (Or.inr rfl) rfl ?_ fun _ _ h => h
        calls := hkept.calls
        trace := hkept.trace
        nextTransport := Nat.le_refl _
        closing := fun _ h => Or.inl h
        unsent := fun _ h => h }
    change (setStage _ k _).attempts s.generation = .opening → _
    rw [attempts_setStage]
    split
    · exact fun hs => by cases hs
    · exact id
  · split
    · refine
        { wires := .same rfl rfl (Or.inr rfl) rfl ?_ fun _ _ h => h
          calls := Or.inl ⟨.refl _, rfl⟩
          trace := ⟨[.connected k s.transport], rfl, by simp [Output.answer?]⟩
          nextTransport := Nat.le_refl _
          closing := fun _ h => Or.inl h
          unsent := fun _ h => h }
      change (setStage _ k _).attempts s.generation = .opening → _
      rw [attempts_setStage]
      split
      · exact fun hs => by cases hs
      · exact id
    · exact setStage_kept (by simp)
  · exact .refl s

theorem fails_kept (h : s.Orderly) (options : Options) (k : Nat) :
    Kept s (s.fails options k) := by
  rw [fails]
  split
  · obtain ⟨hkept, hgone⟩ := failConnection_kept h.toWellFormed options k
    by_cases hconnected : s.status = .connected
    · rw [failConnection, if_pos hconnected]
      exact setStage_kept (by simp)
    · exact hkept.setStage (hgone hconnected) k .finished
  · exact .refl s

theorem turn_kept (aborted : Bool) (h : s.Orderly) : Kept s (s.turn aborted) := by
  rw [turn]
  split
  · rename_i call queue hrunning hqueue
    have hidle : s.answers.pending = none := by
      by_contra hp
      obtain ⟨p, hp⟩ := Option.ne_none_iff_exists'.mp hp
      have := (h.onWire p hp).2.2
      rw [hrunning] at this
      cases this
    have hunwritten : s.unwritten = call.id :: queue.map Call.id := by
      rw [unwritten_of_idle hidle, hrunning, hqueue]
      rfl
    have hsettled : ∀ cause, Output.answer? (.settled call.id (.error cause)) = none →
        Kept s (({ s with queue } : Client).settle call.id (.error cause)) := by
      intro cause hcause
      refine
        { wires := .same rfl rfl (Or.inr rfl) rfl ?_ fun _ _ h => h
          calls := Or.inl ⟨?_, rfl⟩
          trace := ⟨[.settled call.id (.error cause)], rfl, by simpa using hcause⟩
          nextTransport := Nat.le_refl _
          closing := fun _ h => Or.inl h
          unsent := fun _ h => h }
      · exact fun hs => Stage.eq_opening_of_hear call.id (.error cause) hs
      · rw [hunwritten, unwritten_of_idle (by exact hidle)]
        change (s.running.toList.map Call.id ++ queue.map Call.id).Sublist _
        rw [hrunning]
        exact List.sublist_cons_self _ _
    split
    · exact hsettled _ rfl
    · split
      · exact hsettled _ rfl
      · refine
          { wires := .same rfl rfl (Or.inl hidle) rfl id fun _ _ h => h
            calls := Or.inl ⟨?_, rfl⟩
            trace := ⟨[], by simp⟩
            nextTransport := Nat.le_refl _
            closing := fun _ h => Or.inl h
            unsent := fun _ h => h }
        rw [hunwritten, unwritten_of_idle (by exact hidle)]
        exact .refl _
  · exact .refl s

theorem closes_kept (options : Options) (t : TransportID) : Kept s (s.closes options t) := by
  rw [closes]
  split
  · dsimp only
    split
    · exact handleClose_kept options _
    · exact kept_of_same rfl rfl rfl rfl rfl rfl rfl rfl (Or.inr id) ⟨[], by simp⟩
  · exact .refl s

/-- The client's own events put nothing on the wire and read nothing from it. -/
theorem kept_step (h : s.Orderly) (integerOf : Str → Option Int) (options : Options)
    {e : Event} (hown : System.isOwn e = true) (hgrace : e ≠ .graceEnds) :
    Kept s (step integerOf options s e) := by
  cases e with
  | connect => exact connect_kept h.toWellFormed
  | disconnect => exact disconnect_kept h.toWellFormed options
  | tornDown =>
    rw [step, tornDown]
    split
    · exact .refl s
    · rename_i k hk
      exact kept_of_same rfl rfl rfl rfl rfl rfl rfl rfl (Or.inr id)
        ⟨[.disconnected k], rfl, by simp [Output.answer?]⟩
  | retry => exact retry_kept h.toWellFormed
  | loopEnds =>
    rw [step, loopEnds]
    split
    · exact kept_of_same rfl rfl rfl rfl rfl rfl rfl rfl (Or.inr id) ⟨[], by simp⟩
    · exact .refl s
  | opened k notifications alive => exact opened_kept h options k notifications alive
  | openFails k =>
    rw [step, openFails]
    split
    · exact setStage_kept (by simp)
    · exact .refl s
  | discarded k =>
    rw [step, discarded]
    split
    · exact setStage_kept (by simp)
    · exact .refl s
  | goesOn k => exact goesOn_kept k
  | fails k => exact fails_kept h options k
  | exec line => exact exec_kept line
  | turn aborted => exact turn_kept aborted h
  | graceEnds => exact absurd rfl hgrace
  | closes t => exact closes_kept options t
  | write => cases hown
  | sendFails => cases hown
  | gaveUp sending => cases hown
  | lateSendFails t => cases hown
  | line t text => cases hown

/-! ### Events on the wire -/

/-- The command that ran has settled, and its answer is not waited for. -/
theorem unwritten_of_ended (hp : s'.answers.pending = none) (hrunning : s'.running = none)
    (hqueue : s'.queue = s.queue) : s'.unwritten.Sublist s.unwritten := by
  rw [unwritten_of_idle hp, hrunning, hqueue]
  exact s.queue_sublist_unwritten

theorem settle_kept {d : Client} (call : Nat) (cause : Cause)
    (hcause : Output.answer? (.settled call (.error cause)) = none)
    (hidle : s.answers.pending = none) (hd : d = { s with running := none }) :
    Kept s (d.settle call (.error cause)) := by
  subst hd
  refine
    { wires := .same rfl rfl (Or.inl hidle) rfl ?_ fun _ _ h => h
      calls := Or.inl ⟨unwritten_of_ended hidle rfl rfl, rfl⟩
      trace := ⟨[.settled call (.error cause)], rfl, by simpa using hcause⟩
      nextTransport := Nat.le_refl _
      closing := fun _ h => Or.inl h
      unsent := fun _ h => h }
  exact fun hs => Stage.eq_opening_of_hear call (.error cause) hs

/-- A command is put on the wire, or the wire is as it was. -/
theorem write_cases (s : Client) :
    (Kept s s.write ∧ s.write.answers.pending = s.answers.pending) ∨
      ∃ call t, s.running = some call ∧ s.answers.pending = none ∧ s.transport = some t ∧
        t ∉ s.ended ∧ s.write =
          { s with
            answers :=
              { s.answers with
                pending := some
                  { call := call.id
                    transport := t
                    command := ((parseCommand call.line).map Command.name).getD [] } }
            trace := s.trace ++ [.wrote t call.line] } := by
  rw [write]
  split
  · rename_i call hrunning hidle
    split
    · exact Or.inl ⟨settle_kept _ _ rfl hidle rfl, rfl⟩
    · rename_i t ht
      split
      · exact Or.inl ⟨settle_kept _ _ rfl hidle rfl, rfl⟩
      · split
        · exact Or.inl ⟨settle_kept _ _ rfl hidle rfl, rfl⟩
        · rename_i hended
          exact Or.inr ⟨call, t, hrunning, hidle, ht, hended, rfl⟩
  · exact Or.inl ⟨.refl s, rfl⟩

/-- A line is heard, and nothing is made of it but its notifications. -/
theorem take_kept {r : Reading} (hsettled : r.settled = none)
    (hanswers : s.transport = none ∧ r.answers.pending = none ∧ s.answers.pending = none ∨
      r.answers = s.answers) : Kept s (s.take r) := by
  have htake : s.take r =
      { s with answers := r.answers, trace := s.trace ++ r.notifications.map .notification } := by
    rw [take, hsettled]
  have htrace : ∃ out, s.trace ++ r.notifications.map Output.notification = s.trace ++ out ∧
      ∀ o ∈ out, o.answer? = none := by
    refine ⟨_, rfl, ?_⟩
    intro o ho
    obtain ⟨cmd, -, rfl⟩ := List.mem_map.mp ho
    rfl
  rw [htake]
  rcases hanswers with ⟨hgone, hnone, hidle⟩ | hsame
  · refine
      { wires := .gone hgone
        calls := Or.inl ⟨?_, rfl⟩
        trace := htrace
        nextTransport := Nat.le_refl _
        closing := fun _ h => Or.inl h
        unsent := fun _ h => h }
    rw [unwritten_of_idle hidle, unwritten_of_idle (by exact hnone)]
  · exact kept_of_same rfl hsame rfl rfl rfl rfl rfl rfl (Or.inr id) htrace

/-- With no transport installed, a line is nothing to the calls. -/
theorem line_kept_of_gone (h : s.WellFormed) (hgone : s.transport = none)
    (integerOf : Str → Option Int) (options : Options) (t : TransportID) (text : Str) :
    Kept s (s.line options integerOf t text) := by
  rw [line]
  split
  · have hidle := (h.idle hgone).1
    exact take_kept (handleLine_of_idle hidle text).2
      (Or.inl ⟨hgone, (handleLine_of_idle hidle text).1, hidle⟩)
  · exact .refl s

theorem line_kept_of_notification {text : Str} (h : isNotification text = true)
    (integerOf : Str → Option Int) (options : Options) (t : TransportID) :
    Kept s (s.line options integerOf t text) := by
  rw [line]
  split
  · obtain ⟨hsame, hsettled⟩ :=
      handleLine_notification integerOf (options.kind = .web) s.answers h
    exact take_kept hsettled (Or.inr hsame)
  · exact .refl s

/-- The transport installed delivers its lines until it ends. -/
theorem Orderly.delivers (h : s.Orderly) (options : Options) {t : TransportID}
    (ht : s.transport = some t) (hended : t ∉ s.ended) : s.delivers options t = true := by
  rw [Client.delivers, decide_eq_true_iff]
  exact ⟨(h.installed t ht).1, hended, fun hclosing => absurd hclosing (h.isOpen t ht)⟩

/-- A late failure of another transport's write is nothing to the calls. -/
theorem lateSendFails_kept {t : TransportID} (h : s.transport = none ∨ t ∉ s.unsent)
    (hidle : s.transport = none → s.answers.pending = none) : Kept s (s.lateSendFails t) := by
  rw [lateSendFails]
  split
  · rename_i hunsent
    have hgone := h.resolve_right (not_not_intro hunsent)
    refine
      { wires := .gone hgone
        calls := Or.inl ⟨?_, rfl⟩
        trace := ⟨[], by simp⟩
        nextTransport := Nat.le_refl _
        closing := fun _ h => Or.inl h
        unsent := fun _ h => List.mem_of_mem_erase h }
    rw [unwritten_of_idle (hidle hgone), unwritten_of_idle (by exact hidle hgone)]
  · exact .refl s

end Client

end Teamspeak.Query
