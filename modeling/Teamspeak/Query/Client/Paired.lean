import Teamspeak.Query.Client.Owed

/-!
# Every answer goes to its own command

* `paired_step`: one event of the client, its streams or the server keeps `Paired`, unless
  it intrudes.
* `answers_paired`: so it holds at the end of every run in which none does.
-/

namespace Teamspeak.Query

namespace System

variable {integerOf : Str → Option Int} {s s' : System}

/-! ### Steps on the wire installed -/

theorem Books.kept (h : s.Books) (k : s.client.Kept s'.client) (hwf : s'.client.WellFormed)
    (hwires : ∀ t, (s'.wires t).calls.Sublist (s.wires t).calls) (hleaves : Leaves s s') :
    s'.Books :=
  h.leave (h.orderly.kept k hwf) k.nextTransport
    (fun _ hlt hunwritten =>
      ⟨Nat.lt_of_lt_of_le hlt k.nextCall, k.not_mem_unwritten hlt hunwritten⟩)
    hwires hleaves

/-- A quiet step that puts no call on a wire. -/
theorem Books.quiet (h : s.Books) (q : s.client.Quiet s'.client)
    (hsub : s'.client.unwritten.Sublist s.client.unwritten)
    (hcall : s'.client.nextCall = s.client.nextCall)
    (honWire : ∀ p, s'.client.answers.pending = some p →
      s.client.transport = some p.transport ∧ p.call < s.client.nextCall ∧
        s'.client.running.map Call.id = some p.call)
    (hunsent : ∀ t ∈ s'.client.unsent, t < s.client.nextTransport)
    (hwires : ∀ t, (s'.wires t).calls.Sublist (s.wires t).calls) (hleaves : Leaves s s') :
    s'.Books := by
  refine h.leave (h.orderly.quiet q hsub hcall honWire hunsent) ?_ ?_ hwires hleaves
  · rw [q.nextTransport]
  · intro c hlt hunwritten
    rw [hcall]
    exact ⟨hlt, fun hc => hunwritten (hsub.subset hc)⟩

/-- A quiet step after which no command is on the wire. -/
theorem Books.ended (h : s.Books) (q : s.client.Quiet s'.client)
    (hp : s'.client.answers.pending = none) (hrunning : s'.client.running = none)
    (hqueue : s'.client.queue = s.client.queue) (hcall : s'.client.nextCall = s.client.nextCall)
    (hunsent : ∀ t ∈ s'.client.unsent, t < s.client.nextTransport)
    (hwires : ∀ t, (s'.wires t).calls.Sublist (s.wires t).calls) (hleaves : Leaves s s') :
    s'.Books := by
  refine h.quiet q (Client.unwritten_of_ended hp hrunning hqueue) hcall ?_ hunsent hwires hleaves
  intro p hp'
  rw [hp] at hp'
  cases hp'

theorem Paired.own (h : s.Paired integerOf) {client : Client} (k : s.client.Kept client)
    (hwf : client.WellFormed) : Paired integerOf { s with client } :=
  h.kept k (h.books.kept k hwf (fun _ => .refl _) (.gone rfl)) (fun _ _ => rfl)
    (List.append_nil _).symm

theorem take_same (c : Client) : c.take { answers := c.answers } = c := by
  simp [Client.take]

theorem Paired.graceEnds (h : s.Paired integerOf) :
    Paired integerOf { s with client := s.client.take (Query.graceEnds s.client.answers) } := by
  cases hp : s.client.answers.pending with
  | none =>
    rw [graceEnds_of_idle hp, take_same]
    exact h
  | some p =>
    cases hheld : p.held with
    | none =>
      have hsame : Query.graceEnds s.client.answers = { answers := s.client.answers } := by
        simp only [Query.graceEnds, hp, hheld]
      rw [hsame, take_same]
      exact h
    | some held =>
      have hq := s.client.graceEnds_quiet
      obtain ⟨ht, -, -⟩ := h.books.orderly.onWire p hp
      obtain ⟨a, howes⟩ := (h.owes p.transport ht).of_held hp hheld
      obtain ⟨late, hlate, hkeys⟩ := howes.late
      have hends : Query.graceEnds s.client.answers =
          { answers :=
              { s.client.answers with
                pending := none
                strayKey :=
                  if (lateRowsOf p.command).elim false (hasLateRow · p.rows) then
                    s.client.answers.strayKey
                  else held.keys.head?.or s.client.answers.strayKey }
            settled := some (p.call, .ok p.rows) } := by
        simp only [Query.graceEnds, hp, hheld]
      rw [hends] at hq ⊢
      exact
        { books :=
            h.books.ended hq rfl rfl rfl rfl h.books.orderly.unsent (fun _ => .refl _)
              (.gone rfl)
          owes := by
            intro t ht'
            change s.client.transport = some t at ht'
            rw [ht, Option.some.injEq] at ht'
            subst ht'
            refine .passes rfl ⟨?_, ?_⟩
            · change s.client.answers.abandoned = ((s.wires p.transport).unanswered.length : Int)
              rw [howes.abandoned, howes.wire]
              rfl
            · change (s.wires p.transport).outgoing.length ≤ _
              rw [(List.append_eq_nil_iff.mp howes.wire).2]
              exact Nat.zero_le _
          stray := by
            intro t key ht' hkey
            change s.client.transport = some t at ht'
            change (if _ then _ else _) = some key at hkey
            split at hkey
            · exact h.stray t key ht' hkey
            · rename_i hgot
              rw [Option.or_eq_some_iff] at hkey
              rcases hkey with hkey | ⟨-, hkey⟩
              · rw [ht, Option.some.injEq] at ht'
                subst ht'
                refine ⟨a, howes.mem, howes.transport, late, by rw [howes.command, hlate],
                  hkeys ▸ hkey, ?_⟩
                rw [howes.kept]
                simpa [hlate] using hgot
              · exact h.stray t key ht' hkey
          told := by
            refine told_append h [.settled p.call (.ok p.rows)] ?_ ?_
              (List.append_nil _).symm
            · simp [Client.take, Client.settle]
            · intro o ho call result hresult
              rw [List.mem_singleton.mp ho] at hresult
              cases hresult
              exact howes.answer }

theorem write_of_written {p : Pending} (hidle : s.client.answers.pending = none)
    (hp : s.client.write.answers.pending = some p) :
    s.write =
      setWire { s with client := s.client.write } p.transport
        { s.wires p.transport with
          outgoing :=
            (s.wires p.transport).outgoing ++ [{ call := p.call, command := p.command }] } := by
  simp only [System.write, hidle, hp]

theorem Paired.write (h : s.Paired integerOf) : s.write.Paired integerOf := by
  rcases s.client.write_cases with ⟨hkept, hpending⟩ | ⟨call, t, hrunning, hidle, ht, -, hwrite⟩
  · have hown := h.own hkept (h.books.orderly.toWellFormed.quiet s.client.write_quiet)
    rw [System.write]
    cases hp : s.client.answers.pending with
    | none =>
      rw [hp] at hpending
      simp only [hpending]
      exact hown
    | some p => exact hown
  · have hq := s.client.write_quiet
    obtain ⟨habandoned, hunsent⟩ := (h.owes t ht).of_idle hidle
    have hunwritten : s.client.unwritten = call.id :: s.client.write.unwritten := by
      rw [Client.unwritten_of_idle hidle, hrunning, hwrite, Client.unwritten_of_pending (by simp)]
      rfl
    have hlt : call.id < s.client.nextCall := h.books.orderly.lt _ (by simp [hunwritten])
    have horderly : s.client.write.Orderly := by
      refine h.books.orderly.quiet hq ?_ (by rw [hwrite]) ?_ ?_
      · rw [hunwritten]
        exact List.sublist_cons_self _ _
      · intro p hp
        rw [hwrite] at hp ⊢
        obtain rfl := Option.some.inj hp
        exact ⟨ht, hlt, by simp [hrunning]⟩
      · rw [hwrite]
        exact h.books.orderly.unsent
    rw [write_of_written hidle (congrArg (fun c : Client => c.answers.pending) hwrite)]
    rw [hwrite] at hq horderly hunwritten ⊢
    dsimp only
    have hunanswered : ∀ w : Written, Wire.unanswered
        { s.wires t with outgoing := (s.wires t).outgoing ++ [w] } =
          (s.wires t).unanswered ++ [w] := by
      intro w
      rw [Wire.unanswered, Wire.unanswered, List.append_assoc]
    exact
      { books := by
          refine h.books.put (t := t) horderly hunwritten rfl rfl
            (h.books.orderly.wired t (h.books.orderly.installed t ht).1) ?_ ?_ rfl
          · rw [wires_setWire, if_pos rfl, Wire.calls, hunanswered, List.map_append]
            rfl
          · intro u hu
            rw [wires_setWire, if_neg hu]
        owes := by
          intro u hu
          obtain rfl : t = u := Option.some.inj (ht.symm.trans hu)
          refine .waits _ (s.wires t).unanswered
            { call := call.id, command := ((parseCommand call.line).map Command.name).getD [] }
            rfl rfl
            { wire := ?_
              call := rfl
              command := rfl
              kept := rfl
              abandoned := habandoned
              first := fun _ => ⟨rfl, rfl⟩
              unsent := ?_
              lost := Or.inl rfl }
          · rw [wires_setWire, if_pos rfl, hunanswered]
          · rw [wires_setWire, if_pos rfl, List.length_append]
            exact Nat.succ_le_succ hunsent
        stray := h.stray
        told := by
          refine told_append h [.wrote t call.line] rfl ?_ (List.append_nil _).symm
          intro o ho c result hresult
          rw [List.mem_singleton.mp ho] at hresult
          cases hresult }

/-- A command is given up on: its answer is one more to let pass, unless it has come. -/
theorem Paired.gaveUp (h : s.Paired integerOf) : s.gaveUp.Paired integerOf := by
  rw [System.gaveUp]
  set sending := s.client.answers.pending.elim false fun pending =>
    ((s.wires pending.transport).outgoing.map Written.call).contains pending.call with hsending
  have hq := s.client.gaveUp_quiet sending
  cases hrunning : s.client.running with
  | none =>
    have hsame : s.client.gaveUp sending = s.client := by
      simp only [Client.gaveUp, hrunning]
    rw [hsame]
    exact h
  | some call =>
    cases hp : s.client.answers.pending with
    | none =>
      have hclient : s.client.gaveUp sending =
          ({ s.client with running := none } : Client).settle call.id (.error .gaveUp) := by
        simp only [Client.gaveUp, hrunning, hp]
      have hkept := Client.settle_kept call.id .gaveUp rfl hp rfl
      rw [← hclient] at hkept
      exact h.own hkept (h.books.orderly.toWellFormed.quiet hq)
    | some p =>
      obtain ⟨ht, -, -⟩ := h.books.orderly.onWire p hp
      have htold : ∀ client : Client,
          client.trace = s.client.trace ++ [.settled call.id (.error .gaveUp)] →
          ∀ o ∈ client.trace, ∀ c result, o.answer? = some (c, result) →
            HasAnswer integerOf s.answered c result := by
        intro client htrace
        refine @told_append s { s with client } integerOf h _ htrace ?_ [] (List.append_nil _).symm
        intro o ho c result hresult
        rw [List.mem_singleton.mp ho] at hresult
        cases hresult
      cases hheld : p.held with
      | some held =>
        obtain ⟨a, howes⟩ := (h.owes p.transport ht).of_held hp hheld
        have hclient : s.client.gaveUp sending =
            ({ s.client with
              answers := { s.client.answers with pending := none }, running := none } :
                Client).settle call.id (.error .gaveUp) := by
          simp [Client.gaveUp, hrunning, hp, hheld]
        rw [hclient] at hq ⊢
        exact
          { books :=
              h.books.ended hq rfl rfl rfl rfl h.books.orderly.unsent (fun _ => .refl _)
                (.gone rfl)
            owes := by
              intro u hu
              obtain rfl : p.transport = u := Option.some.inj (ht.symm.trans hu)
              refine .passes rfl ⟨?_, ?_⟩
              · change s.client.answers.abandoned = ((s.wires p.transport).unanswered.length : Int)
                rw [howes.abandoned, howes.wire]
                rfl
              · change (s.wires p.transport).outgoing.length ≤ _
                rw [(List.append_eq_nil_iff.mp howes.wire).2]
                exact Nat.zero_le _
            stray := h.stray
            told := htold _ rfl }
      | none =>
        obtain ⟨front, w, howes⟩ := (h.owes p.transport ht).of_waiting hp hheld
        have hclient : s.client.gaveUp sending =
            ({ s.client with
              answers :=
                { s.client.answers with
                  pending := none, abandoned := s.client.answers.abandoned + 1 }
              unsent := if sending then p.transport :: s.client.unsent else s.client.unsent
              running := none } : Client).settle call.id (.error .gaveUp) := by
          simp [Client.gaveUp, hrunning, hp, hheld]
        rw [hclient] at hq ⊢
        exact
          { books := by
              refine h.books.ended hq rfl rfl rfl rfl ?_ (fun _ => .refl _) (.gone rfl)
              intro u hu
              change u ∈ (if sending then p.transport :: s.client.unsent else s.client.unsent) at hu
              split at hu
              · rcases List.mem_cons.mp hu with rfl | hu
                · exact h.books.orderly.wired _ (h.books.orderly.installed _ ht).1
                · exact h.books.orderly.unsent u hu
              · exact h.books.orderly.unsent u hu
            owes := by
              intro u hu
              obtain rfl : p.transport = u := Option.some.inj (ht.symm.trans hu)
              refine .passes rfl ⟨?_, ?_⟩
              · change s.client.answers.abandoned + 1 =
                  ((s.wires p.transport).unanswered.length : Int)
                rw [howes.abandoned, howes.wire, List.length_append]
                rfl
              · change (s.wires p.transport).outgoing.length ≤
                  (if sending then p.transport :: s.client.unsent else s.client.unsent).count
                    p.transport
                have hcount := howes.unsent
                cases hs : sending with
                | true =>
                  rw [if_pos rfl, List.count_cons_self]
                  exact hcount
                | false =>
                  -- The command given up on was the last: nothing is out after it.
                  rw [howes.outgoing_nil (by rw [hs, hp] at hsending; exact hsending.symm)]
                  exact Nat.zero_le _
            stray := h.stray
            told := htold _ rfl }

/-! ### Streams -/

theorem Books.lt_of_calls (h : s.Books) {t : TransportID} (hcalls : (s.wires t).calls ≠ []) :
    t < s.client.nextTransport := by
  by_contra hlt
  exact hcalls (h.fresh t (Nat.le_of_not_lt hlt))

/-- What happens on the wire of a transport that is not installed. -/
theorem Paired.elsewhere (h : s.Paired integerOf) (k : s.client.Kept s'.client)
    (hwf : s'.client.WellFormed) {t : TransportID} (ht : s.client.transport ≠ some t)
    (hcalls : (s.wires t).calls ≠ []) (hwire : (s'.wires t).calls.Sublist (s.wires t).calls)
    (hwires : ∀ u, u ≠ t → s'.wires u = s.wires u) (hleaves : Leaves s s')
    {more : List Answered} (hanswered : s'.answered = s.answered ++ more) :
    s'.Paired integerOf := by
  have hlt := h.books.lt_of_calls hcalls
  refine h.kept k (h.books.kept k hwf ?_ hleaves) ?_ hanswered
  · intro u
    by_cases hu : u = t
    · exact hu ▸ hwire
    · rw [hwires u hu]
  · intro u hu
    apply hwires
    rintro rfl
    rcases hu with hu | hu
    · exact ht hu
    · exact absurd hlt (Nat.not_lt.mpr hu)

theorem Paired.flush (h : s.Paired integerOf) (t : TransportID) :
    (s.flush t).Paired integerOf := by
  rw [System.flush]
  split
  · exact h
  · rename_i w outgoing hout
    have hun : ∀ u, (wires (s.setWire t { outgoing, owed := (s.wires t).owed ++ [w] })
        u).unanswered = (s.wires u).unanswered := by
      intro u
      rw [wires_setWire]
      split
      · rename_i hu
        rw [hu, Wire.unanswered, Wire.unanswered, hout, List.append_assoc]
        rfl
      · rfl
    have hcalls : ∀ u, (wires (s.setWire t { outgoing, owed := (s.wires t).owed ++ [w] })
        u).calls = (s.wires u).calls := by
      intro u
      rw [Wire.calls, hun, Wire.calls]
    exact
      { books :=
          h.books.leave h.books.orderly (Nat.le_refl _) (fun _ hlt hwaits => ⟨hlt, hwaits⟩)
            (fun u => by rw [hcalls]) (.gone rfl)
        owes := by
          intro u hu
          refine (h.owes u hu).congr rfl rfl (hun u) ?_ (List.append_nil _).symm
          rw [wires_setWire]
          split
          · rename_i hut
            rw [hut, hout, List.length_cons]
            exact Nat.le_succ _
          · exact Nat.le_refl _
        stray := h.stray
        told := h.told }

theorem Paired.notify (h : s.Paired integerOf) (options : Options) (t : TransportID)
    {text : Str} (htext : isNotification text = true) :
    (s.hear integerOf options t text).Paired integerOf :=
  h.own (Client.line_kept_of_notification htext integerOf options t)
    (h.books.orderly.toWellFormed.quiet (s.client.line_quiet options integerOf t text))

/-- The client hears nothing of a transport that is not installed. -/
theorem line_kept_elsewhere (h : s.client.Orderly) (options : Options) {t : TransportID}
    (ht : s.client.transport ≠ some t)
    (hquiet : (s.client.transport.any (· ≠ t) && s.client.delivers options t) = false)
    (text : Str) : s.client.Kept (s.client.line options integerOf t text) := by
  cases hinstalled : s.client.transport with
  | none => exact Client.line_kept_of_gone h.toWellFormed hinstalled integerOf options t text
  | some u =>
    have hut : u ≠ t := fun hu => ht (hu ▸ hinstalled)
    have hdelivers : s.client.delivers options t = false := by
      simpa [hinstalled, hut] using hquiet
    rw [Client.line, hdelivers]
    exact .refl _

/-! ### Rows and `error` lines -/

theorem line_of_delivers {c : Client} {options : Options} {t : TransportID}
    (h : c.delivers options t = true) (text : Str) :
    c.line options integerOf t text =
      c.take (handleLine integerOf (options.kind = .web) c.answers text) := by
  rw [Client.line, if_pos h]

theorem Waits.rows {p : Pending} {w : Written} {t : TransportID} (h : s.Waits t p [] w)
    (hp : s.client.answers.pending = some p)
    (hstray : ∀ key, s.client.answers.strayKey = some key →
      ∃ a ∈ s.answered, a.transport = t ∧ Vain key a) {rows : List Params}
    (hclient : s'.client.answers =
      { s.client.answers with
        pending := some { p with rows := p.rows ++ keptRows s.client.answers rows }
        strayKey :=
          if rows.any (isStray s.client.answers) then none else s.client.answers.strayKey })
    (hanswered : s'.answered = s.answered)
    (hwire : s'.wires t =
      { (s.wires t) with
        owed :=
          [{ w with
            rows := w.rows ++ rows, kept := w.kept ++ keptRows s.client.answers rows }] })
    (houtgoing : (s.wires t).outgoing = []) :
    s'.Waits t { p with rows := p.rows ++ keptRows s.client.answers rows } []
      { w with rows := w.rows ++ rows, kept := w.kept ++ keptRows s.client.answers rows } where
  wire := by rw [hwire, Wire.unanswered, houtgoing, List.append_nil, List.nil_append]
  call := h.call
  command := h.command
  kept := congrArg (· ++ _) h.kept
  abandoned := by rw [hclient]; exact h.abandoned
  first hne := absurd rfl hne
  unsent := by
    rw [hwire]
    change (s.wires t).outgoing.length ≤ _
    rw [houtgoing]
    exact Nat.zero_le _
  lost := by
    rw [hclient, hanswered]
    dsimp only
    rcases keptRows_cases s.client.answers rows with hkept | ⟨howns, front, row, back, hrows, hkept,
      hrow⟩
    · rw [hkept]
      rcases h.lost with hall | ⟨hkey, hlost⟩
      · exact Or.inl (congrArg (· ++ rows) hall)
      · refine Or.inr ⟨?_, hlost.append rows⟩
        rw [hkey]
        exact ite_self none
    · rw [hkept]
      cases hkey : s.client.answers.strayKey with
      | none =>
        rw [isStray_of_none hkey] at hrow
        cases hrow
      | some key =>
        have hall := h.lost.resolve_right fun hlost => by
          rw [hkey] at hlost
          cases hlost.1
        have hany : rows.any (isStray s.client.answers) = true := by
          rw [hrows, List.any_eq_true]
          exact ⟨row, by simp, hrow⟩
        refine Or.inr ⟨if_pos hany, w.rows ++ front, row, back, key, ?_, ?_, ?_, hstray key hkey, ?_⟩
        · rw [hrows, List.append_assoc]
        · rw [hall, List.append_assoc]
        · rw [isStray, hkey, decide_eq_true_iff] at hrow
          exact hrow
        · intro own hown hmem
          rw [h.command] at hown
          rw [ownsStray, hkey, hp, Option.bind_some, hown] at howns
          simp [hmem] at howns

/-- A wire whose first answer gets rows keeps its calls. -/
theorem calls_setWire_rows {t : TransportID} {w w' : Written} {owed : List Written}
    (howed : (s.wires t).owed = w :: owed) (hcall : w'.call = w.call) (u : TransportID) :
    ((s.setWire t { (s.wires t) with owed := w' :: owed }).wires u).calls.Sublist
      (s.wires u).calls := by
  rw [wires_setWire]
  split
  · rename_i hu
    rw [hu]
    simp only [Wire.calls, Wire.unanswered, howed, List.cons_append, List.map_cons, hcall]
    exact .refl _
  · exact .refl _

theorem Paired.rows_passed (h : s.Paired integerOf) {t : TransportID}
    (ht : s.client.transport = some t) {w w' : Written} {owed : List Written}
    (howed : (s.wires t).owed = w :: owed) (hcall : w'.call = w.call)
    (hpasses : s.client.answers.abandoned > 0) :
    (s.setWire t { (s.wires t) with owed := w' :: owed }).Paired integerOf where
  books :=
    h.books.leave h.books.orderly (Nat.le_refl _) (fun _ hlt hwaits => ⟨hlt, hwaits⟩)
      (calls_setWire_rows howed hcall) (.gone rfl)
  owes u hu := by
    obtain rfl : t = u := Option.some.inj (ht.symm.trans hu)
    have hwire : (s.wires t).unanswered = w :: (owed ++ (s.wires t).outgoing) := by
      rw [Wire.unanswered, howed, List.cons_append]
    have hwire' : ((s.setWire t { (s.wires t) with owed := w' :: owed }).wires t).unanswered =
        w' :: (owed ++ (s.wires t).outgoing) := by
      rw [wires_setWire, if_pos rfl, Wire.unanswered, List.cons_append]
    have houtgoing : ((s.setWire t { (s.wires t) with owed := w' :: owed }).wires t).outgoing =
        (s.wires t).outgoing := by
      rw [wires_setWire, if_pos rfl]
    rcases h.owes t ht with ⟨hp, howes⟩ | ⟨p, front, v, hp, hheld, howes⟩ |
      ⟨p, held, a, hp, hheld, howes⟩
    · refine .passes hp ⟨?_, ?_⟩
      · rw [hwire', List.length_cons, ← List.length_cons (a := w), ← hwire]
        exact howes.abandoned
      · rw [houtgoing]
        exact howes.unsent
    · cases front with
      | nil =>
        have := howes.abandoned
        simp only [List.length_nil] at this
        omega
      | cons w₀ front =>
        have hsplit := howes.wire
        rw [hwire, List.cons_append, List.cons.injEq] at hsplit
        refine .waits p (w' :: front) v hp hheld
          { howes with
            wire := ?_
            abandoned := howes.abandoned
            first := fun _ => howes.first (List.cons_ne_nil _ _)
            unsent := ?_ }
        · rw [hwire', hsplit.2, List.cons_append]
        · rw [houtgoing]
          exact howes.unsent
    · rw [howes.wire] at hwire
      cases hwire
  stray := h.stray
  told := h.told

theorem Paired.rows_taken (h : s.Paired integerOf) {t : TransportID}
    (ht : s.client.transport = some t) {p : Pending} (hp : s.client.answers.pending = some p)
    (hheld : p.held = none) {w : Written} (howes : s.Waits t p [] w) {rows : List Params}
    {client : Client} (q : s.client.Quiet client)
    (hclient : client =
      { s.client with
        answers :=
          { s.client.answers with
            pending := some { p with rows := p.rows ++ keptRows s.client.answers rows }
            strayKey :=
              if rows.any (isStray s.client.answers) then none
              else s.client.answers.strayKey } })
    (howed : (s.wires t).owed = [w]) (houtgoing : (s.wires t).outgoing = []) :
    (setWire { s with client } t
      { (s.wires t) with
        owed :=
          [{ w with
            rows := w.rows ++ rows
            kept := w.kept ++ keptRows s.client.answers rows }] }).Paired integerOf := by
  subst hclient
  have honWire := h.books.orderly.onWire p hp
  exact
    { books := by
        refine h.books.quiet q ?_ rfl ?_ h.books.orderly.unsent
          (calls_setWire_rows howed rfl) (.gone rfl)
        · rw [Client.unwritten_of_pending (by exact Option.some_ne_none _),
            Client.unwritten_of_pending (by simp [hp])]
          exact .refl _
        · intro p' hp'
          obtain rfl := Option.some.inj hp'
          exact honWire
      owes := by
        intro u hu
        obtain rfl : t = u := Option.some.inj (ht.symm.trans hu)
        exact .waits _ [] _ rfl hheld
          (howes.rows hp (fun key => h.stray t key ht) rfl rfl
            (by rw [wires_setWire, if_pos rfl]) houtgoing)
      stray := by
        intro u key hu hkey
        refine h.stray u key hu ?_
        change (if _ then _ else _) = some key at hkey
        split at hkey
        · cases hkey
        · exact hkey
      told := h.told }

theorem Paired.sendRows (h : s.Paired integerOf) (options : Options) {t : TransportID}
    {text : Str} (hended : t ∉ s.client.ended)
    (hquiet : (s.client.transport.any (· ≠ t) && s.client.delivers options t) = false) :
    (s.sendRows integerOf options t text).Paired integerOf := by
  rw [System.sendRows]
  split
  · rename_i w owed rows howed hrows
    have hline := s.client.line_quiet options integerOf t text
    have hwf := h.books.orderly.toWellFormed.quiet hline
    by_cases ht : s.client.transport = some t
    · rw [hear]
      rw [line_of_delivers (h.books.orderly.delivers options ht hended)] at hline hwf ⊢
      by_cases hpasses : s.client.answers.abandoned > 0
      · rw [handleLine_rows_of_owed integerOf _ hrows hpasses, take_same]
        exact h.rows_passed ht howed rfl hpasses
      · have hnotEmpty : (s.wires t).unanswered ≠ [] := by
          rw [Wire.unanswered, howed]
          simp
        rcases h.owes t ht with ⟨hp, howes⟩ | ⟨p, front, v, hp, hheld, howes⟩ |
          ⟨p, held, a, hp, hheld, howes⟩
        · have := howes.abandoned
          have := List.length_pos_iff.mpr hnotEmpty
          omega
        · have hfront : front = [] := by
            rw [← List.length_eq_zero_iff]
            have := howes.abandoned
            omega
          subst hfront
          have hwire := howes.wire
          rw [Wire.unanswered, howed, List.nil_append, List.cons_append, List.cons.injEq,
            List.append_eq_nil_iff] at hwire
          obtain ⟨rfl, rfl, houtgoing⟩ := hwire
          have hhandle := handleLine_rows integerOf (decide (options.kind = .web)) hrows hpasses hp
            hheld
          rw [hhandle] at hline ⊢
          refine h.rows_taken ht hp hheld howes hline ?_ howed houtgoing
          simp [Client.take]
        · exact absurd howes.wire hnotEmpty
    · refine h.elsewhere (line_kept_elsewhere h.books.orderly options ht hquiet text) hwf ht ?_ ?_
        ?_ (.gone rfl) (List.append_nil _).symm
      · simp [Wire.calls, Wire.unanswered, howed]
      · exact calls_setWire_rows (s := s.hear integerOf options t text) howed (by rfl) t
      · intro u hu
        rw [wires_setWire, if_neg hu]
        rfl
  · exact h

section

variable {t : TransportID} {w : Written} {owed : List Written}

theorem unanswered_of_owed (howed : (s.wires t).owed = w :: owed) :
    (s.wires t).unanswered = w :: (owed ++ (s.wires t).outgoing) := by
  rw [Wire.unanswered, howed, List.cons_append]

theorem unanswered_answer (error : Params) :
    ((s.answer t w owed error).wires t).unanswered = owed ++ (s.wires t).outgoing := by
  rw [answer, wires_setWire, if_pos rfl]
  rfl

theorem outgoing_answer (error : Params) :
    ((s.answer t w owed error).wires t).outgoing = (s.wires t).outgoing := by
  rw [answer, wires_setWire, if_pos rfl]

theorem calls_answer (howed : (s.wires t).owed = w :: owed) (client : Client) (error : Params)
    (u : TransportID) :
    ((answer { s with client } t w owed error).wires u).calls.Sublist (s.wires u).calls := by
  by_cases hu : u = t
  · rw [hu, Wire.calls, Wire.calls, unanswered_answer, unanswered_of_owed howed]
    exact (List.sublist_cons_self _ _).map _
  · rw [answer, wires_setWire, if_neg hu]

theorem leaves_answer (howed : (s.wires t).owed = w :: owed) (client : Client)
    (error : Params) : Leaves s (answer { s with client } t w owed error) := by
  refine .answered t w.call ?_ ?_
  · rw [Wire.calls, Wire.calls, unanswered_answer, unanswered_of_owed howed]
    rfl
  · simp only [answeredCalls, answer, List.map_append, List.map_cons, List.map_nil]

theorem Paired.error_passed (h : s.Paired integerOf) (ht : s.client.transport = some t)
    (howed : (s.wires t).owed = w :: owed) (error : Params)
    (hpasses : s.client.answers.abandoned > 0) :
    (answer
      { s with
        client :=
          { s.client with
            answers :=
              { s.client.answers with abandoned := s.client.answers.abandoned - 1 } } }
      t w owed error).Paired integerOf := by
  have hwire := unanswered_of_owed howed
  exact
    { books := by
        refine h.books.leave ?_ (Nat.le_refl _) (fun _ hlt hwaits => ⟨hlt, hwaits⟩)
          (calls_answer howed _ error) (leaves_answer howed _ error)
        exact { h.books.orderly with }
      owes := by
        intro u hu
        obtain rfl : t = u := Option.some.inj (ht.symm.trans hu)
        rcases h.owes t ht with ⟨hp, howes⟩ | ⟨p, front, v, hp, hheld, howes⟩ |
          ⟨p, held, a, hp, hheld, howes⟩
        · refine .passes hp ⟨?_, ?_⟩
          · rw [unanswered_answer]
            have := howes.abandoned
            rw [hwire, List.length_cons] at this
            change s.client.answers.abandoned - 1 = _
            rw [this]
            push_cast
            exact add_sub_cancel_right _ _
          · rw [outgoing_answer]
            exact howes.unsent
        · cases front with
          | nil =>
            have := howes.abandoned
            simp only [List.length_nil] at this
            omega
          | cons w₀ front =>
            have hsplit := howes.wire
            rw [hwire, List.cons_append, List.cons.injEq] at hsplit
            refine .waits p front v hp hheld
              { howes with
                wire := ?_
                abandoned := ?_
                first := fun _ => howes.first (List.cons_ne_nil _ _)
                unsent := ?_
                lost := ?_ }
            · rw [unanswered_answer, hsplit.2]
            · have := howes.abandoned
              rw [List.length_cons] at this
              change s.client.answers.abandoned - 1 = _
              rw [this]
              push_cast
              exact add_sub_cancel_right _ _
            · rw [outgoing_answer]
              exact howes.unsent
            · exact howes.lost.imp_right fun hlost => ⟨hlost.1, hlost.2.mono _⟩
        · rw [howes.wire] at hwire
          cases hwire
      stray := by
        intro u key hu hkey
        obtain ⟨a, ha, hvain⟩ := h.stray u key hu hkey
        exact ⟨a, List.mem_append_left _ ha, hvain⟩
      told := fun o ho call result hresult => (h.told o ho call result hresult).mono _ }

/-- The answer that is waited for ends: it is the whole answer of its own command. -/
theorem Waits.hasAnswer {p : Pending} (h : s.Waits t p [] w) (error : Params) {result : Result}
    (hresult : answerResult integerOf p.command p.rows error = result) :
    HasAnswer integerOf (s.answered ++ [{ w with transport := t, error }]) p.call result := by
  refine ⟨s.answered, { w with transport := t, error }, [], rfl, h.call, ?_, ?_⟩
  · rw [Answered.result]
    dsimp only
    rw [h.command, h.kept, hresult]
  · exact h.lost.imp_right And.right

/-- The answer that is waited for ends, and its command settles with it. -/
theorem Paired.error_settles (h : s.Paired integerOf) (ht : s.client.transport = some t)
    {p : Pending} (howes : s.Waits t p [] w) (howed : (s.wires t).owed = [w])
    (houtgoing : (s.wires t).outgoing = []) (error : Params) {client : Client}
    (q : s.client.Quiet client)
    (hclient : client =
      ({ s.client with
        answers := { s.client.answers with pending := none, strayKey := none }
        running := none } : Client).settle p.call
        (answerResult integerOf p.command p.rows error)) :
    (answer { s with client } t w [] error).Paired integerOf := by
  subst hclient
  have hwire : ∀ c : Client,
      ((answer { s with client := c } t w [] error).wires t).unanswered = [] := by
    intro c
    rw [unanswered_answer, houtgoing, List.append_nil]
  exact
    { books :=
        h.books.ended q rfl rfl rfl rfl h.books.orderly.unsent (calls_answer howed _ error)
          (leaves_answer howed _ error)
      owes := by
        intro u hu
        obtain rfl : t = u := Option.some.inj (ht.symm.trans hu)
        refine .passes rfl ⟨?_, ?_⟩
        · rw [hwire]
          exact howes.abandoned
        · rw [outgoing_answer, houtgoing]
          exact Nat.zero_le _
      stray := fun u key hu hkey => by cases hkey
      told := by
        refine told_append h [.settled p.call (answerResult integerOf p.command p.rows error)]
          rfl ?_ rfl
        intro o ho call result hresult
        rw [List.mem_singleton.mp ho] at hresult
        have hsettled := Output.eq_of_answer? hresult
        rw [← hsettled.1]
        exact howes.hasAnswer error hsettled.2 }

/-- The answer that is waited for ends, and late rows are waited for. -/
theorem Paired.error_holds (h : s.Paired integerOf) (ht : s.client.transport = some t)
    {p : Pending} (hp : s.client.answers.pending = some p) (howes : s.Waits t p [] w)
    (howed : (s.wires t).owed = [w]) (houtgoing : (s.wires t).outgoing = []) (error : Params)
    {held : Held} {late : LateRows} (hlate : lateRowsOf p.command = some late)
    (hkeys : held.keys = late.keys)
    (hresult : answerResult integerOf p.command p.rows error = .ok p.rows) {client : Client}
    (q : s.client.Quiet client)
    (hclient : client =
      { s.client with
        answers :=
          { s.client.answers with
            pending := some { p with held := some held }, strayKey := none } }) :
    (answer { s with client } t w [] error).Paired integerOf := by
  subst hclient
  have honWire := h.books.orderly.onWire p hp
  exact
    { books := by
        refine h.books.quiet q ?_ rfl ?_ h.books.orderly.unsent (calls_answer howed _ error)
          (leaves_answer howed _ error)
        · rw [Client.unwritten_of_pending (by exact Option.some_ne_none _),
            Client.unwritten_of_pending (by simp [hp])]
          exact .refl _
        · intro p' hp'
          obtain rfl := Option.some.inj hp'
          exact honWire
      owes := by
        intro u hu
        obtain rfl : t = u := Option.some.inj (ht.symm.trans hu)
        refine .holds { p with held := some held } held { w with transport := t, error } rfl rfl
          { late := ⟨late, hlate, hkeys⟩
            wire := ?_
            abandoned := howes.abandoned
            mem := List.mem_append_right _ (List.mem_singleton_self _)
            transport := rfl
            command := howes.command
            kept := howes.kept
            answer := howes.hasAnswer error hresult }
        rw [unanswered_answer, houtgoing, List.append_nil]
      stray := fun u key hu hkey => by cases hkey
      told := fun o ho call result hanswer => (h.told o ho call result hanswer).mono _ }

end

theorem Paired.sendError (h : s.Paired integerOf) (options : Options) {t : TransportID}
    {text : Str} (hended : t ∉ s.client.ended)
    (hquiet : (s.client.transport.any (· ≠ t) && s.client.delivers options t) = false) :
    (s.sendError integerOf options t text).Paired integerOf := by
  rw [System.sendError]
  split
  · rename_i w owed error howed herror
    have hline := s.client.line_quiet options integerOf t text
    have hwf := h.books.orderly.toWellFormed.quiet hline
    rw [hear]
    by_cases ht : s.client.transport = some t
    · rw [line_of_delivers (h.books.orderly.delivers options ht hended),
        handleLine_error integerOf _ herror] at hline ⊢
      by_cases hpasses : s.client.answers.abandoned > 0
      · rw [if_pos hpasses]
        have := h.error_passed ht howed error hpasses
        simpa [Client.take] using this
      · rw [if_neg hpasses] at hline ⊢
        have hwire := unanswered_of_owed howed
        rcases h.owes t ht with ⟨hp, howes⟩ | ⟨p, front, v, hp, hheld, howes⟩ |
          ⟨p, held, a, hp, hheld, howes⟩
        · have := howes.abandoned
          rw [hwire, List.length_cons] at this
          omega
        · have hfront : front = [] := by
            rw [← List.length_eq_zero_iff]
            have := howes.abandoned
            omega
          subst hfront
          rw [howes.wire, List.nil_append, List.cons.injEq, eq_comm (a := []),
            List.append_eq_nil_iff] at hwire
          obtain ⟨rfl, rfl, houtgoing⟩ := hwire
          simp only [hp] at hline ⊢
          rcases endAnswer_cases integerOf (decide (options.kind = .web)) s.client.answers p
            error with hend | ⟨held, late, hlate, hkeys, hresult, hend⟩
          · rw [hend] at hline ⊢
            refine h.error_settles ht howes howed houtgoing error hline ?_
            simp [Client.take]
          · rw [hend] at hline ⊢
            refine h.error_holds ht hp howes howed houtgoing error hlate hkeys hresult hline ?_
            simp [Client.take]
        · rw [howes.wire] at hwire
          cases hwire
    · refine h.elsewhere (line_kept_elsewhere h.books.orderly options ht hquiet text) hwf ht ?_
        (calls_answer howed _ error t) ?_ (leaves_answer howed _ error) rfl
      · simp [Wire.calls, Wire.unanswered, howed]
      · intro u hu
        rw [answer, wires_setWire, if_neg hu]
  · exact h

/-! ### Writes that fail -/

section

variable {t : TransportID} {w : Written} {outgoing : List Written}

theorem calls_writeFails (hout : (s.wires t).outgoing = w :: outgoing) (client : Client)
    (u : TransportID) :
    ((setWire { s with client } t { (s.wires t) with outgoing }).wires u).calls.Sublist
      (s.wires u).calls := by
  rw [wires_setWire]
  split
  · rename_i hu
    rw [hu, Wire.calls, Wire.calls, Wire.unanswered, Wire.unanswered, hout]
    exact ((List.sublist_cons_self _ _).append_left _).map _
  · exact .refl _

/-- The write of the command that is waited for fails. -/
theorem Paired.write_fails (h : s.Paired integerOf) (hout : (s.wires t).outgoing = w :: outgoing)
    (hcurrent : s.current = some w.call) :
    (setWire { s with client := s.client.sendFails } t
      { (s.wires t) with outgoing }).Paired integerOf := by
  obtain ⟨p, hp, hheld, hcall⟩ : ∃ p, s.client.answers.pending = some p ∧ p.held = none ∧
      p.call = w.call := by
    rw [current, Option.bind_eq_some_iff] at hcurrent
    obtain ⟨p, hp, hcurrent⟩ := hcurrent
    cases hheld : p.held with
    | none => exact ⟨p, hp, hheld, by simpa [hheld] using hcurrent⟩
    | some held => simp [hheld] at hcurrent
  obtain ⟨hinstalled, -, -⟩ := h.books.orderly.onWire p hp
  obtain ⟨front, v, howes⟩ := (h.owes p.transport hinstalled).of_waiting hp hheld
  have hv : v.call ∈ (s.wires p.transport).calls := by
    rw [Wire.calls, howes.wire]
    simp
  have hw : w.call ∈ (s.wires t).calls := by
    simp [Wire.calls, Wire.unanswered, hout]
  -- It is the last that was written, so nothing is out after it.
  obtain rfl : t = p.transport := by
    by_contra hne
    exact h.books.apart _ _ hne hw (hcall ▸ howes.call ▸ hv)
  have hwire := howes.wire
  rw [Wire.unanswered, hout] at hwire
  have hlast : outgoing = [] := by
    rcases List.eq_nil_or_concat outgoing with hnil | ⟨between, v', hconcat⟩
    · exact hnil
    · exfalso
      rw [hconcat, List.concat_eq_append, ← List.cons_append, ← List.append_assoc] at hwire
      obtain ⟨-, hv'⟩ := List.append_inj' hwire rfl
      have hnodup := (h.books.nodup p.transport).of_append_left
      rw [Wire.calls, Wire.unanswered, hout, hconcat, List.concat_eq_append,
        List.singleton_inj.mp hv', ← List.cons_append, ← List.append_assoc, List.map_append,
        List.nodup_append] at hnodup
      refine hnodup.2.2 w.call (by simp) v.call (by simp) ?_
      rw [howes.call, hcall]
  subst hlast
  obtain ⟨howed, -⟩ := List.append_inj' hwire rfl
  have hq := s.client.sendFails_quiet
  have hclient : s.client.sendFails =
      ({ s.client with
        answers := { s.client.answers with pending := none }, running := none } :
          Client).settle p.call (.error .sendFailed) := by
    simp only [Client.sendFails, hp]
  have hcalls := calls_writeFails hout s.client.sendFails
  rw [hclient] at hq hcalls ⊢
  exact
    { books :=
        h.books.ended hq rfl rfl rfl rfl h.books.orderly.unsent hcalls (.gone rfl)
      owes := by
        intro u hu
        obtain rfl : p.transport = u := Option.some.inj (hinstalled.symm.trans hu)
        refine .passes rfl ⟨?_, ?_⟩
        · rw [wires_setWire, if_pos rfl, Wire.unanswered, List.append_nil, howed]
          exact howes.abandoned
        · rw [wires_setWire, if_pos rfl]
          exact Nat.zero_le _
      stray := h.stray
      told := by
        refine told_append h [.settled p.call (.error .sendFailed)] rfl ?_
          (List.append_nil _).symm
        intro o ho call result hresult
        rw [List.mem_singleton.mp ho] at hresult
        cases hresult }

/-- A write that nobody waits for any more has failed. -/
def lateFailed (s : System) (t : TransportID) (outgoing : List Written) : System :=
  setWire
    { s with
      client :=
        { s.client with
          answers := { s.client.answers with abandoned := s.client.answers.abandoned - 1 }
          unsent := s.client.unsent.erase t } }
    t { (s.wires t) with outgoing }

theorem unanswered_lateFailed :
    ((s.lateFailed t outgoing).wires t).unanswered = (s.wires t).owed ++ outgoing := by
  rw [lateFailed, wires_setWire, if_pos rfl, Wire.unanswered]

theorem outgoing_lateFailed : ((s.lateFailed t outgoing).wires t).outgoing = outgoing := by
  rw [lateFailed, wires_setWire, if_pos rfl]

theorem Paired.lateFailed (h : s.Paired integerOf) (ht : s.client.transport = some t)
    (hout : (s.wires t).outgoing = w :: outgoing)
    (howes : (s.lateFailed t outgoing).Owes integerOf t) :
    (s.lateFailed t outgoing).Paired integerOf where
  books := by
    refine h.books.leave ?_ (Nat.le_refl _) (fun _ hlt hwaits => ⟨hlt, hwaits⟩)
      (calls_writeFails hout _) (.gone rfl)
    exact
      { h.books.orderly with
        unsent := fun u hu => h.books.orderly.unsent u (List.mem_of_mem_erase hu) }
  owes u hu := by
    obtain rfl : t = u := Option.some.inj (ht.symm.trans hu)
    exact howes
  stray := h.stray
  told := h.told

/-- The write of a command that was given up on fails, over the transport installed. -/
theorem Paired.late_write_fails (h : s.Paired integerOf) (ht : s.client.transport = some t)
    (hout : (s.wires t).outgoing = w :: outgoing) (hcurrent : s.current ≠ some w.call) :
    (setWire { s with client := s.client.lateSendFails t } t
      { (s.wires t) with outgoing }).Paired integerOf := by
  have hwire : (s.wires t).unanswered = (s.wires t).owed ++ w :: outgoing := by
    rw [Wire.unanswered, hout]
  have hclient : 0 < s.client.unsent.count t →
      setWire { s with client := s.client.lateSendFails t } t { (s.wires t) with outgoing } =
        s.lateFailed t outgoing := by
    intro hcount
    rw [Client.lateSendFails, if_pos (List.count_pos_iff.mp hcount), System.lateFailed]
  have hunsent : (s.lateFailed t outgoing).client.unsent.count t =
      s.client.unsent.count t - 1 := List.count_erase_self
  rcases h.owes t ht with ⟨hp, howes⟩ | ⟨p, front, v, hp, hheld, howes⟩ |
    ⟨p, held, a, hp, hheld, howes⟩
  · have hle := howes.unsent
    rw [hout, List.length_cons] at hle
    rw [hclient (by omega)]
    refine h.lateFailed ht hout (.passes hp ⟨?_, ?_⟩)
    · rw [unanswered_lateFailed]
      have habandoned := howes.abandoned
      rw [hwire, List.length_append, List.length_cons] at habandoned
      change s.client.answers.abandoned - 1 = _
      rw [habandoned, List.length_append]
      push_cast
      omega
    · rw [outgoing_lateFailed, hunsent]
      omega
  · rw [howes.wire] at hwire
    rcases List.eq_nil_or_concat outgoing with rfl | ⟨between, v', hconcat⟩
    · exfalso
      obtain ⟨-, hv⟩ := List.append_inj' hwire rfl
      apply hcurrent
      rw [current, hp, Option.bind_some, hheld, ← List.singleton_inj.mp hv, howes.call]
      rfl
    · rw [hconcat, List.concat_eq_append, ← List.cons_append, ← List.append_assoc] at hwire
      obtain ⟨hfront, hv⟩ := List.append_inj' hwire rfl
      have hle := howes.unsent
      rw [hout, List.length_cons] at hle
      have hpos : 0 < outgoing.length := by
        rw [hconcat]
        simp
      rw [hclient (by omega)]
      refine h.lateFailed ht hout (.waits p ((s.wires t).owed ++ between) v hp hheld
        { howes with
          wire := ?_
          abandoned := ?_
          first := fun _ => howes.first (by simp [hfront])
          unsent := ?_ })
      · rw [unanswered_lateFailed, hconcat, List.concat_eq_append, ← List.append_assoc, hv]
      · have habandoned := howes.abandoned
        rw [hfront, List.length_append, List.length_cons] at habandoned
        change s.client.answers.abandoned - 1 = _
        rw [habandoned, List.length_append]
        push_cast
        omega
      · rw [outgoing_lateFailed, hunsent]
        omega
  · rw [howes.wire] at hwire
    cases (List.append_eq_nil_iff.mp hwire.symm).2

end

theorem Paired.writeFails (h : s.Paired integerOf) {t : TransportID}
    (hquiet : (s.client.transport.any (· ≠ t) && s.client.unsent.contains t) = false) :
    (s.writeFails t).Paired integerOf := by
  rw [System.writeFails]
  split
  · exact h
  · rename_i w outgoing hout
    dsimp only
    by_cases hcurrent : s.current = some w.call
    · rw [if_pos hcurrent]
      exact h.write_fails hout hcurrent
    · rw [if_neg hcurrent]
      by_cases ht : s.client.transport = some t
      · exact h.late_write_fails ht hout hcurrent
      · have hkept : s.client.Kept (s.client.lateSendFails t) := by
          refine Client.lateSendFails_kept ?_ fun hgone => (h.books.orderly.idle hgone).1
          cases hinstalled : s.client.transport with
          | none => exact Or.inl rfl
          | some u =>
            right
            have hut : u ≠ t := fun hu => ht (hu ▸ hinstalled)
            simpa [hinstalled, hut] using hquiet
        have hwf := h.books.orderly.toWellFormed.quiet (s.client.lateSendFails_quiet t)
        refine h.elsewhere hkept hwf ht ?_ (calls_writeFails hout _ t) ?_ (.gone rfl)
          (List.append_nil _).symm
        · simp [Wire.calls, Wire.unanswered, hout]
        · intro u hu
          rw [wires_setWire, if_neg hu]

/-! ### Every event -/

/-- **One event keeps every answer with its own command**, unless it intrudes. -/
theorem paired_step (options : Options) (s : System) (e : Event) (h : s.Paired integerOf)
    (hquiet : s.intrudes options e = false) :
    (s.step integerOf options e).Paired integerOf := by
  cases e with
  | own e =>
    rw [step, own]
    split
    · rename_i hown
      by_cases hgrace : e = .graceEnds
      · subst hgrace
        exact h.graceEnds
      · exact h.own (Client.kept_step h.books.orderly integerOf options hown hgrace)
          (Client.wellFormed_step integerOf options s.client e h.books.orderly.toWellFormed)
    · exact h
  | write => exact h.write
  | gaveUp => exact h.gaveUp
  | flush t => exact h.flush t
  | writeFails t => exact h.writeFails hquiet
  | rows t text =>
    rw [step]
    split
    · exact h
    · rename_i hended
      exact h.sendRows options hended hquiet
  | error t text =>
    rw [step]
    split
    · exact h
    · rename_i hended
      exact h.sendError options hended hquiet
  | notify t text =>
    rw [step]
    split
    · rename_i htext
      exact h.notify options t htext.2
    · exact h

/-- Every call has what is its own: those settled with an answer, the one that waits for its
answer, and the one that waits for late rows. -/
structure OwnAnswers (integerOf : Str → Option Int) (s : System) : Prop where
  settled : ∀ o ∈ s.client.trace, ∀ call result, o.answer? = some (call, result) →
    HasAnswer integerOf s.answered call result
  waiting : ∀ p, s.client.answers.pending = some p → p.held = none →
    ∃ w ∈ (s.wires p.transport).unanswered, w.call = p.call ∧ w.kept = p.rows ∧
      (w.kept = w.rows ∨ LostStray s.answered p.transport w)
  held : ∀ p held, s.client.answers.pending = some p → p.held = some held →
    HasAnswer integerOf s.answered p.call (.ok p.rows)
  once : s.answeredCalls.Nodup

theorem Paired.ownAnswers (h : s.Paired integerOf) : s.OwnAnswers integerOf where
  settled := h.told
  waiting p hp hheld := by
    obtain ⟨ht, -, -⟩ := h.books.orderly.onWire p hp
    obtain ⟨front, w, howes⟩ := (h.owes p.transport ht).of_waiting hp hheld
    refine ⟨w, ?_, howes.call, howes.kept, howes.lost.imp_right And.right⟩
    rw [howes.wire]
    simp
  held p held hp hheld := by
    obtain ⟨ht, -, -⟩ := h.books.orderly.onWire p hp
    obtain ⟨a, howes⟩ := (h.owes p.transport ht).of_held hp hheld
    exact howes.answer
  once := (h.books.nodup 0).of_append_right

/-- **In every run every call that settles with an answer settles with its own**, as long as
no transport is heard of but the one installed. -/
theorem answers_paired (integerOf : Str → Option Int) (options : Options) {es : List Event}
    (hquiet : Along (step integerOf options) (fun s e => intrudes options s e = false) {} es) :
    (run (step integerOf options) {} es).OwnAnswers integerOf :=
  (run_invariant_along (fun s e h => paired_step options s e h) paired_init hquiet).ownAnswers

/-- A create is answered without its row, and the wait for it ends; the next command is
answered with one row, whose only key is that of the create's. -/
def strayRun : List Event :=
  [.own .connect, .own (.opened 1 true true),
    .own (.exec (.of "channelcreate channel_name=x")), .own (.turn false), .write, .flush 0,
    .error 0 (.of "error id=0 msg=ok"), .own .graceEnds,
    .own (.exec (.of "channelfind pattern=x")), .own (.turn false), .write, .flush 0,
    .rows 0 (.of "cid=5"), .error 0 (.of "error id=0 msg=ok"), .own .graceEnds]

theorem answers_paired_stray :
    (run (step (fun _ => none) { kind := .tcp }) {} strayRun).OwnAnswers (fun _ => none) :=
  answers_paired (fun _ => none) { kind := .tcp } (by decide +kernel)

/-- The second command settles with no row, and was sent one. -/
theorem answers_row_lost :
    ¬ ∀ call rows,
      .settled call (.ok rows) ∈
        (run (step (fun _ => none) { kind := .tcp }) {} strayRun).client.trace →
      ∃ a ∈ (run (step (fun _ => none) { kind := .tcp }) {} strayRun).answered,
        a.call = call ∧ a.rows = rows := by
  intro h
  obtain ⟨a, ha, hcall, hrows⟩ := h 1 [] (by decide +kernel)
  have hsent : ∀ a ∈ (run (step (fun _ => none) { kind := .tcp }) {} strayRun).answered,
      a.call = 1 → a.rows ≠ [] := by decide +kernel
  exact hsent a ha hcall hrows

end System

end Teamspeak.Query
