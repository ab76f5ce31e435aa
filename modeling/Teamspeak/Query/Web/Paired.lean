import Teamspeak.Lib.Run
import Teamspeak.Query.Client.Steady
import Teamspeak.Query.Web.Hearing

/-!
# WebQuery answers and the commands they are for

The client lets answers pass as it does over a stream, by their number, although each of
its requests is answered apart.

* `OwnResponses`: every call that settles with an answer settles with that of its own
  request, the one on the wire has its request in flight, and the number of answers to let
  pass is what it should be.
* `InOrder`: no answer comes while a request that was given up on is in flight.
* `web_paired`: where every event is, `OwnResponses` holds at the end of the run.
-/

namespace Teamspeak.Query

namespace WebSystem

variable {integerOf : Str → Option Int} {options : Options} {s s' : WebSystem}

def calls (s : WebSystem) : List Nat := s.inFlight.map Request.call

def respondedCalls (s : WebSystem) : List Nat := s.responded.map Responded.call

/-- Whether a request was given up on, over the connection that the answers are of. -/
def counts (s : WebSystem) (r : Request) : Bool :=
  r.abandonedByUs && s.client.wired.head? = some r.transport

theorem counts_congr (h : s'.client.wired = s.client.wired) : s'.counts = s.counts := by
  funext r
  rw [counts, counts, h]

/-- The call was answered, and the result is its own rows and its own status. -/
def HasResponse (integerOf : Str → Option Int) (responded : List Responded) (call : Nat)
    (result : Result) : Prop :=
  ∃ a ∈ responded, a.call = call ∧ answerResult integerOf a.command a.rows a.error = result

/-- The requests in flight are those of the command on the wire, which is not counted, and of
commands given up on, and as many answers are let pass as are counted. -/
structure Sound (integerOf : Str → Option Int) (s : WebSystem) : Prop where
  orderly : s.client.Orderly
  head : ∀ t, s.client.transport = some t → s.client.wired.head? = some t
  numbered : ∀ r ∈ s.inFlight, r.transport < s.client.nextTransport
  nodup : (s.calls ++ s.respondedCalls).Nodup
  spent : ∀ c ∈ s.calls ++ s.respondedCalls,
    c < s.client.nextCall ∧ c ∉ s.client.unwritten
  abandoned : s.client.answers.abandoned = s.inFlight.countP s.counts
  stray : s.client.answers.strayKey = none
  waiting : ∀ p, s.client.answers.pending = some p →
    p.held = none ∧ p.rows = [] ∧
      ∃ r ∈ s.inFlight, r.call = p.call ∧ r.transport = p.transport ∧ r.abandonedByUs = false
  told : ∀ o ∈ s.client.trace, ∀ call result, o.answer? = some (call, result) →
    HasResponse integerOf s.responded call result

theorem sound_init : ({} : WebSystem).Sound integerOf where
  orderly := Client.orderly_init
  head _ h := by cases h
  numbered _ h := by cases h
  nodup := List.nodup_nil
  spent _ h := by cases h
  abandoned := rfl
  stray := rfl
  waiting _ h := by cases h
  told _ h := by cases h

theorem told_concat (h : s.Sound integerOf) (out : List Output)
    (htrace : s'.client.trace = s.client.trace ++ out)
    (hout : ∀ o ∈ out, ∀ call result, o.answer? = some (call, result) →
      HasResponse integerOf s'.responded call result)
    (hresponded : ∀ a ∈ s.responded, a ∈ s'.responded) :
    ∀ o ∈ s'.client.trace, ∀ call result, o.answer? = some (call, result) →
      HasResponse integerOf s'.responded call result := by
  intro o ho call result hanswer
  rw [htrace, List.mem_append] at ho
  rcases ho with ho | ho
  · obtain ⟨a, ha, hown⟩ := h.told o ho call result hanswer
    exact ⟨a, hresponded a ha, hown⟩
  · exact hout o ho call result hanswer

theorem Sound.eq_of_call (h : s.Sound integerOf) {r r' : Request} (hr : r ∈ s.inFlight)
    (hr' : r' ∈ s.inFlight) (hcall : r.call = r'.call) : r = r' :=
  List.inj_on_of_nodup_map h.nodup.of_append_left hr hr' hcall

/-- The request of the command on the wire is not counted. -/
theorem Sound.not_counted (h : s.Sound integerOf) {p : Pending}
    (hp : s.client.answers.pending = some p) {r : Request} (hr : r ∈ s.inFlight)
    (hcall : r.call = p.call) : r.abandonedByUs = false := by
  obtain ⟨-, -, r', hr', hcall', -, hcounted⟩ := h.waiting p hp
  rw [h.eq_of_call hr hr' (hcall.trans hcall'.symm)]
  exact hcounted

theorem countP_erase_add {p : Request → Bool} {l : List Request} {r : Request} (h : r ∈ l) :
    l.countP p = (l.erase r).countP p + if p r then 1 else 0 := by
  rw [(List.perm_cons_erase h).countP_eq, List.countP_cons]

theorem Sound.own (h : s.Sound integerOf) {client : Client} (k : s.client.Kept client)
    (st : s.client.Steady client) (hwf : client.WellFormed) :
    Sound integerOf { s with client } := by
  have hnew : s.client.transport ≠ some s.client.nextTransport := fun ht =>
    Nat.lt_irrefl _ (h.orderly.wired _ (h.orderly.installed _ ht).1)
  have htold : ∀ o ∈ client.trace, ∀ call result, o.answer? = some (call, result) →
      HasResponse integerOf s.responded call result := by
    obtain ⟨out, hout, hnone⟩ := k.trace
    refine @told_concat integerOf s { s with client } h out hout ?_ fun _ ha => ha
    intro o ho call result hanswer
    rw [hnone o ho] at hanswer
    cases hanswer
  have hspent : ∀ c ∈ s.calls ++ s.respondedCalls,
      c < client.nextCall ∧ c ∉ client.unwritten := by
    intro c hc
    obtain ⟨hlt, hunwritten⟩ := h.spent c hc
    exact ⟨Nat.lt_of_lt_of_le hlt k.nextCall, k.not_mem_unwritten hlt hunwritten⟩
  have hnumbered : ∀ r ∈ s.inFlight, r.transport < client.nextTransport := fun r hr =>
    Nat.lt_of_lt_of_le (h.numbered r hr) k.nextTransport
  rcases st with ⟨htransport, hwired, habandoned, hkey⟩ | ⟨htransport, hwired, hanswers⟩
  · exact
      { orderly := h.orderly.kept k hwf
        head := by
          intro t ht
          change client.wired.head? = some t
          rw [hwired]
          rcases htransport with hnone | hsame
          · cases hnone.symm.trans ht
          · exact h.head t (hsame.symm.trans ht)
        numbered := hnumbered
        nodup := h.nodup
        spent := hspent
        abandoned := by
          have hcounts : WebSystem.counts { s with client } = s.counts := counts_congr hwired
          change client.answers.abandoned = _
          rw [habandoned, h.abandoned, hcounts]
        stray := hkey.trans h.stray
        waiting := by
          intro p hp
          change client.answers.pending = some p at hp
          rcases k.wires with hgone | ⟨-, hsame, -, -, -, -⟩ | ⟨hfresh, -, -, -, -, -⟩
          · rw [(hwf.idle hgone).1] at hp
            cases hp
          · rw [hsame] at hp
            exact h.waiting p hp
          · rcases htransport with hnone | hsame
            · cases hnone.symm.trans hfresh
            · exact absurd (hsame.symm.trans hfresh) hnew
        told := htold }
  · exact
      { orderly := h.orderly.kept k hwf
        head := by
          intro t ht
          change client.wired.head? = some t
          rw [hwired]
          exact htransport.symm.trans ht
        numbered := hnumbered
        nodup := h.nodup
        spent := hspent
        abandoned := by
          change client.answers.abandoned = _
          rw [hanswers, List.countP_eq_zero.mpr]
          · rfl
          · intro r hr hcounts
            rw [counts, hwired, Bool.and_eq_true, decide_eq_true_iff] at hcounts
            have hnext : s.client.nextTransport = r.transport := Option.some.inj hcounts.2
            exact Nat.lt_irrefl _ (hnext ▸ h.numbered r hr)
        stray := by
          change client.answers.strayKey = none
          rw [hanswers]
        waiting := by
          intro p hp
          change client.answers.pending = some p at hp
          rw [hanswers] at hp
          cases hp
        told := htold }

theorem Sound.sent (h : s.Sound integerOf) {client : Client} {call : Call} {t : TransportID}
    (hrunning : s.client.running = some call) (hidle : s.client.answers.pending = none)
    (ht : s.client.transport = some t) (q : s.client.Quiet client) {command line : Str}
    (hclient : client =
      { s.client with
        answers :=
          { s.client.answers with
            pending := some { call := call.id, transport := t, command } }
        trace := s.client.trace ++ [.wrote t line] }) :
    Sound integerOf
      { s with
        client, inFlight := s.inFlight ++ [{ call := call.id, transport := t }] } := by
  have hafter : client.unwritten = s.client.queue.map Call.id := by
    rw [hclient, Client.unwritten_of_pending (by simp)]
  have hunwritten : s.client.unwritten = call.id :: s.client.queue.map Call.id := by
    rw [Client.unwritten_of_idle hidle, hrunning]
    rfl
  subst hclient
  have hlt : call.id < s.client.nextCall := h.orderly.lt _ (by simp [hunwritten])
  have hnodup := h.orderly.nodup
  rw [hunwritten, List.nodup_cons] at hnodup
  have hfresh : call.id ∉ s.calls ++ s.respondedCalls := fun hc =>
    (h.spent _ hc).2 (by simp [hunwritten])
  have hperm : ((s.inFlight ++ [({ call := call.id, transport := t } : Request)]).map
      Request.call ++ s.respondedCalls).Perm (call.id :: (s.calls ++ s.respondedCalls)) := by
    rw [List.map_append, List.append_assoc]
    exact List.perm_middle
  exact
    { orderly := by
        refine h.orderly.quiet q ?_ rfl ?_ h.orderly.unsent
        · rw [hunwritten, hafter]
          exact List.sublist_cons_self _ _
        · intro p hp
          obtain rfl := Option.some.inj hp
          exact ⟨ht, hlt, by simp [hrunning]⟩
      head := h.head
      numbered := by
        intro r hr
        rcases List.mem_append.mp hr with hr | hr
        · exact h.numbered r hr
        · rw [List.mem_singleton.mp hr]
          exact h.orderly.wired t (h.orderly.installed t ht).1
      nodup := hperm.nodup_iff.mpr (List.nodup_cons.mpr ⟨hfresh, h.nodup⟩)
      spent := by
        intro c hc
        rw [hafter]
        rcases List.mem_cons.mp (hperm.mem_iff.mp hc) with rfl | hc
        · exact ⟨hlt, hnodup.1⟩
        · obtain ⟨hlt', hwaits⟩ := h.spent c hc
          refine ⟨hlt', fun hq => hwaits ?_⟩
          rw [hunwritten]
          exact List.mem_cons_of_mem _ hq
      abandoned := by
        rw [List.countP_append]
        exact h.abandoned
      stray := h.stray
      waiting := by
        intro p hp
        obtain rfl := Option.some.inj hp
        exact ⟨rfl, rfl, { call := call.id, transport := t }, by simp, rfl, rfl, rfl⟩
      told := by
        refine told_concat h [.wrote t line] rfl ?_ fun _ ha => ha
        intro o ho c result hresult
        rw [List.mem_singleton.mp ho] at hresult
        cases hresult }

/-- The request of the command on the wire leaves, and the command settles. -/
theorem Sound.settles (h : s.Sound integerOf) {p : Pending}
    (hp : s.client.answers.pending = some p) {r : Request} (hr : r ∈ s.inFlight)
    (hcall : r.call = p.call) (result : Result) {responded : List Responded}
    {strayKey : Option Str} (hkey : strayKey = none)
    (hcalls : responded.map Responded.call = [] ∨ responded.map Responded.call = [p.call])
    (htold : ∀ c answer, Output.answer? (.settled p.call result) = some (c, answer) →
      HasResponse integerOf (s.responded ++ responded) c answer) :
    Sound integerOf
      { client :=
          ({ s.client with
            answers := { s.client.answers with pending := none, strayKey }, running := none } :
              Client).settle p.call result
        inFlight := s.inFlight.erase r
        responded := s.responded ++ responded } := by
  have hq : s.client.Quiet
      (({ s.client with
        answers := { s.client.answers with pending := none, strayKey }, running := none } :
          Client).settle p.call result) :=
    Client.settle_quiet rfl rfl rfl (Or.inl (by simp [hp])) (fun _ _ => rfl) fun _ _ => rfl
  have hsub : (({ s.client with
      answers := { s.client.answers with pending := none, strayKey }, running := none } :
        Client).settle p.call result).unwritten.Sublist s.client.unwritten :=
    Client.unwritten_of_ended rfl rfl rfl
  have hperm : (s.calls ++ s.respondedCalls).Perm
      (p.call :: ((s.inFlight.erase r).map Request.call ++ s.respondedCalls)) := by
    refine (((List.perm_cons_erase hr).map Request.call).append_right _).trans ?_
    rw [List.map_cons, hcall]
    exact .refl _
  have hspent : ∀ c ∈ (s.inFlight.erase r).map Request.call ++ (s.responded ++ responded).map
      Responded.call, c ∈ s.calls ++ s.respondedCalls := by
    intro c hc
    rw [hperm.mem_iff]
    rw [List.map_append, ← List.append_assoc, List.mem_append] at hc
    rcases hc with hc | hc
    · exact List.mem_cons_of_mem _ hc
    · rcases hcalls with hnil | hone
      · rw [hnil] at hc
        cases hc
      · rw [hone, List.mem_singleton] at hc
        rw [hc]
        exact List.mem_cons_self
  exact
    { orderly := by
        refine h.orderly.quiet hq hsub rfl ?_ h.orderly.unsent
        intro p' hp'
        cases hp'
      head := h.head
      numbered := fun r' hr' => h.numbered r' (List.mem_of_mem_erase hr')
      nodup := by
        have hnodup := hperm.nodup_iff.mp h.nodup
        rcases hcalls with hnil | hone
        · change ((s.inFlight.erase r).map Request.call ++ (s.responded ++ responded).map
            Responded.call).Nodup
          rw [List.map_append, hnil, List.append_nil]
          exact (List.nodup_cons.mp hnodup).2
        · change ((s.inFlight.erase r).map Request.call ++ (s.responded ++ responded).map
            Responded.call).Nodup
          rw [List.map_append, hone, ← List.append_assoc]
          exact (List.perm_append_singleton _ _).nodup_iff.mpr hnodup
      spent := by
        intro c hc
        obtain ⟨hlt, hwaits⟩ := h.spent c (hspent c hc)
        exact ⟨hlt, fun hc => hwaits (hsub.subset hc)⟩
      abandoned := by
        have hcount := countP_erase_add (p := s.counts) hr
        have huncounted : s.counts r = false := by
          rw [counts, h.not_counted hp hr hcall, Bool.false_and]
        rw [huncounted] at hcount
        change s.client.answers.abandoned = ((s.inFlight.erase r).countP s.counts : Nat)
        rw [h.abandoned, hcount]
        rfl
      stray := hkey
      waiting := by
        intro p' hp'
        cases hp'
      told := by
        refine told_concat h [.settled p.call result] rfl ?_ fun _ ha =>
          List.mem_append_left _ ha
        intro o ho c answer hanswer
        rw [List.mem_singleton.mp ho] at hanswer
        exact htold c answer hanswer }

/-- The answer to the command on the wire comes, and no other is to be let pass. -/
theorem Sound.answered (h : s.Sound integerOf) (hweb : options.kind = .web) {p : Pending}
    (hp : s.client.answers.pending = some p) {r : Request} (hr : r ∈ s.inFlight)
    (hcall : r.call = p.call) (hdelivers : s.client.delivers options r.transport = true)
    (hclear : s.client.answers.abandoned = 0) (rows : List JsonRow)
    (hrows : ∀ row ∈ rows, ReadsBack row) {text : Str} {error : Params}
    (herror : errorOfLine text = some error) :
    Sound integerOf
      { hear integerOf options { s with inFlight := s.inFlight.erase r } r.transport
          (rows.map rowLine ++ [text]) with
        responded :=
          s.responded ++
            [{ call := p.call, command := p.command, rows := rows.map rowOf, error }] } := by
  obtain ⟨hheld, hempty, -⟩ := h.waiting p hp
  rw [hear, Client.foldl_line hweb hdelivers (rows.map rowLine ++ [text]),
    Client.foldl_handle_response rows hrows herror hclear.le h.stray hp hheld hempty]
  refine h.settles hp hr hcall _ rfl (Or.inr rfl) ?_
  intro c answer hanswer
  exact ⟨_, List.mem_append_right _ (List.mem_singleton_self _), Output.eq_of_answer? hanswer⟩

/-! ### Requests that fail -/

/-- A request that nobody waits for leaves, and is counted off if it was counted. -/
theorem Sound.leaves (h : s.Sound integerOf) {r : Request} (hr : r ∈ s.inFlight)
    (hwaiting : ∀ p, s.client.answers.pending = some p → p.call ≠ r.call) (abandoned : Int)
    (habandoned : s.client.answers.abandoned = abandoned + if s.counts r then 1 else 0) :
    Sound integerOf
      { s with
        client := { s.client with answers := { s.client.answers with abandoned } }
        inFlight := s.inFlight.erase r } where
  orderly := { h.orderly with }
  head := h.head
  numbered r' hr' := h.numbered r' (List.mem_of_mem_erase hr')
  nodup := h.nodup.sublist ((List.erase_sublist.map _).append_right _)
  spent c hc := h.spent c (((List.erase_sublist.map _).append_right _).subset hc)
  abandoned := by
    have hcount := countP_erase_add (p := s.counts) hr
    have hbefore := h.abandoned
    rw [habandoned, hcount] at hbefore
    change abandoned = ((s.inFlight.erase r).countP s.counts : Nat)
    push_cast at hbefore
    exact add_right_cancel hbefore
  stray := h.stray
  waiting p hp := by
    obtain ⟨hheld, hrows, r', hr', hcall, htransport, hcounted⟩ := h.waiting p hp
    refine ⟨hheld, hrows, r', ?_, hcall, htransport, hcounted⟩
    refine (List.mem_erase_of_ne ?_).mpr hr'
    rintro rfl
    exact hwaiting p hp hcall.symm
  told := h.told

theorem Sound.rejects (h : s.Sound integerOf) {r : Request} (hr : r ∈ s.inFlight)
    (horder : r.abandonedByUs = true → s.client.wired.head? = some r.transport) :
    Sound integerOf { s with inFlight := s.inFlight.erase r, client := s.rejects r } := by
  rw [WebSystem.rejects]
  cases hwaiting : s.isWaiting r.call with
  | true =>
    rw [isWaiting, Option.any_eq_true] at hwaiting
    obtain ⟨p, hp, hcall⟩ := hwaiting
    have hclient : s.client.sendFails =
        ({ s.client with
          answers := { s.client.answers with pending := none }, running := none } :
            Client).settle p.call (.error .sendFailed) := by
      simp only [Client.sendFails, hp]
    have hsettles := h.settles hp hr (of_decide_eq_true hcall).symm (.error .sendFailed) h.stray
      (Or.inl List.map_nil) fun c answer hanswer => by cases hanswer
    rw [if_pos rfl, hclient]
    rw [List.append_nil] at hsettles
    exact hsettles
  | false =>
    rw [isWaiting, Option.any_eq_false] at hwaiting
    have hother : ∀ p, s.client.answers.pending = some p → p.call ≠ r.call := by
      intro p hp
      simpa using hwaiting p hp
    rw [if_neg (by simp)]
    cases hcounted : r.abandonedByUs with
    | true =>
      rw [if_pos rfl]
      refine h.leaves hr hother _ ?_
      rw [counts, hcounted, horder hcounted]
      simp
    | false =>
      have hleaves := h.leaves hr hother s.client.answers.abandoned (by
        rw [counts, hcounted]
        simp)
      rw [if_neg (by simp)]
      exact hleaves

/-! ### Commands that are given up on -/

def mark (call : Nat) (r : Request) : Request :=
  if r.call = call then { r with abandonedByUs := true } else r

theorem map_call_mark (call : Nat) (l : List Request) :
    (l.map (mark call)).map Request.call = l.map Request.call := by
  rw [List.map_map]
  apply List.map_congr_left
  intro r hr
  rw [Function.comp_apply, mark]
  split
  · rfl
  · rfl

theorem countP_mark {p : Request → Bool} {l : List Request} {r : Request} (hr : r ∈ l)
    (hnodup : (l.map Request.call).Nodup) (hbefore : p r = false)
    (hafter : p { r with abandonedByUs := true } = true) :
    (l.map (mark r.call)).countP p = l.countP p + 1 := by
  induction l with
  | nil => cases hr
  | cons a l ih =>
    rw [List.map_cons, List.nodup_cons] at hnodup
    rw [List.map_cons, List.countP_cons, List.countP_cons]
    rcases List.mem_cons.mp hr with rfl | hr
    · have hrest : l.map (mark r.call) = l := by
        have hother : ∀ q ∈ l, mark r.call q = id q := fun q hq =>
          if_neg fun heq : q.call = r.call => hnodup.1 (heq ▸ List.mem_map_of_mem hq)
        rw [List.map_congr_left hother, List.map_id]
      rw [hrest, mark, if_pos rfl, hbefore, hafter]
      simp
    · have hne : a.call ≠ r.call := fun heq =>
        hnodup.1 (heq ▸ List.mem_map_of_mem hr)
      rw [ih hr hnodup.2, mark, if_neg hne]
      omega

theorem Sound.gaveUp (h : s.Sound integerOf) : s.gaveUp.Sound integerOf := by
  rw [WebSystem.gaveUp]
  have hq := s.client.gaveUp_quiet false
  cases hp : s.client.answers.pending with
  | none =>
    cases hrunning : s.client.running with
    | none =>
      have hsame : s.client.gaveUp false = s.client := by
        simp only [Client.gaveUp, hrunning]
      rw [hsame]
      exact h
    | some call =>
      have hclient : s.client.gaveUp false =
          ({ s.client with running := none } : Client).settle call.id (.error .gaveUp) := by
        simp only [Client.gaveUp, hrunning, hp]
      have hkept := Client.settle_kept call.id .gaveUp rfl hp rfl
      rw [← hclient] at hkept
      refine h.own hkept ?_ (h.orderly.toWellFormed.quiet hq)
      rw [hclient]
      exact .same (Or.inr rfl) rfl rfl rfl
  | some p =>
    obtain ⟨hheld, -, r, hr, hcall, htransport, hcounted⟩ := h.waiting p hp
    obtain ⟨ht, -, hrunning⟩ := h.orderly.onWire p hp
    obtain ⟨call, hcallRuns, -⟩ := Option.map_eq_some_iff.mp hrunning
    have hclient : s.client.gaveUp false =
        ({ s.client with
          answers :=
            { s.client.answers with
              pending := none, abandoned := s.client.answers.abandoned + 1 }
          running := none } : Client).settle call.id (.error .gaveUp) := by
      simp [Client.gaveUp, hcallRuns, hp, hheld]
    have hsub : (s.client.gaveUp false).unwritten.Sublist s.client.unwritten := by
      rw [hclient]
      exact Client.unwritten_of_ended rfl rfl rfl
    have hmark : (s.inFlight.map fun r =>
        if r.call = p.call then { r with abandonedByUs := p.held.isNone } else r) =
          s.inFlight.map (mark p.call) := by
      rw [hheld]
      rfl
    dsimp only
    rw [hmark]
    rw [hclient] at hq hsub ⊢
    exact
      { orderly := by
          refine h.orderly.quiet hq hsub rfl ?_ h.orderly.unsent
          intro p' hp'
          cases hp'
        head := h.head
        numbered := by
          intro r' hr'
          obtain ⟨q, hq', rfl⟩ := List.mem_map.mp hr'
          have := h.numbered q hq'
          rw [mark]
          split
          · exact this
          · exact this
        nodup := by
          change ((s.inFlight.map (mark p.call)).map Request.call ++ s.respondedCalls).Nodup
          rw [map_call_mark]
          exact h.nodup
        spent := by
          intro c hc
          change c ∈ (s.inFlight.map (mark p.call)).map Request.call ++ s.respondedCalls at hc
          rw [map_call_mark] at hc
          obtain ⟨hlt, hwaits⟩ := h.spent c hc
          exact ⟨hlt, fun hc => hwaits (hsub.subset hc)⟩
        abandoned := by
          change s.client.answers.abandoned + 1 =
            ((s.inFlight.map (mark p.call)).countP s.counts : Nat)
          rw [← hcall, countP_mark hr h.nodup.of_append_left, h.abandoned]
          · rfl
          · rw [counts, hcounted, Bool.false_and]
          · rw [counts, htransport, h.head _ ht]
            simp
        stray := h.stray
        waiting := by
          intro p' hp'
          cases hp'
        told := by
          refine told_concat h [.settled call.id (.error .gaveUp)] rfl ?_ fun _ ha => ha
          intro o ho c answer hanswer
          rw [List.mem_singleton.mp ho] at hanswer
          cases hanswer }

/-! ### Every event -/

/-- The event is no answer that comes while a request that was given up on is in flight over
the same connection, brings no row that its line does not say, and is no end of a request
that was given up on over an earlier connection. -/
def InOrder (s : WebSystem) : Event → Prop
  | .write => (useParams s.running).isSome = true → s.inFlight.countP s.counts = 0
  | .responds call response =>
    ∀ r ∈ s.inFlight.find? (·.call = call),
      if s.isWaiting call then
        s.inFlight.countP s.counts = 0 ∧ ∀ row ∈ response.rows, ReadsBack row
      else r.abandonedByUs = true → s.client.wired.head? = some r.transport
  | .fails call =>
    ∀ r ∈ s.inFlight.find? (·.call = call), r.abandonedByUs = true →
      s.client.wired.head? = some r.transport
  | _ => True

instance (s : WebSystem) : DecidablePred s.InOrder
  | .own _ => inferInstanceAs (Decidable True)
  | .write => inferInstanceAs (Decidable (_ → _))
  | .gaveUp => inferInstanceAs (Decidable True)
  | .responds call response =>
    inferInstanceAs (Decidable (∀ r ∈ s.inFlight.find? (·.call = call),
      if s.isWaiting call then
        s.inFlight.countP s.counts = 0 ∧ ∀ row ∈ response.rows, ReadsBack row
      else r.abandonedByUs = true → s.client.wired.head? = some r.transport))
  | .fails call =>
    inferInstanceAs (Decidable (∀ r ∈ s.inFlight.find? (·.call = call),
      r.abandonedByUs = true → s.client.wired.head? = some r.transport))

theorem Sound.write (h : s.Sound integerOf) (hweb : options.kind = .web)
    (horder : s.InOrder .write) : (s.write integerOf options).Sound integerOf := by
  have hq := s.client.write_quiet
  rcases s.client.write_cases with ⟨hkept, hpending⟩ | ⟨call, t, hrunning, hidle, ht, hended,
    hwrite⟩
  · have hown := h.own hkept (Client.write_steady s.client) (h.orderly.toWellFormed.quiet hq)
    rw [WebSystem.write]
    cases hp : s.client.answers.pending with
    | none =>
      rw [hp] at hpending
      simp only [hpending]
      exact hown
    | some p => exact hown
  · have hsent := h.sent hrunning hidle ht hq hwrite
    have hp : s.client.write.answers.pending = some
        { call := call.id
          transport := t
          command := ((parseCommand call.line).map Command.name).getD [] } := by
      rw [hwrite]
    simp only [WebSystem.write, hidle, hp]
    cases huse : useParams s.running with
    | none => exact hsent
    | some params =>
      have hclear : s.client.write.answers.abandoned = 0 := by
        rw [hwrite]
        exact h.abandoned.trans (by rw [horder (by rw [huse]; rfl)]; rfl)
      have hdelivers : s.client.write.delivers options t = true := by
        rw [hwrite]
        exact h.orderly.delivers options ht hended
      obtain ⟨error, herror⟩ := Option.isSome_iff_exists.mp (errorOfLine_useLine params)
      have hanswered := hsent.answered hweb hp
        (List.mem_append_right s.inFlight (List.mem_singleton_self _)) rfl hdelivers hclear []
        (by simp) herror
      have hfresh : ({ call := call.id, transport := t } : Request) ∉ s.inFlight := by
        intro hr
        refine (h.spent call.id (List.mem_append_left _ (List.mem_map.mpr ⟨_, hr, rfl⟩))).2 ?_
        rw [Client.unwritten_of_idle hidle, hrunning]
        exact List.mem_cons_self
      have herase : (s.inFlight ++ [({ call := call.id, transport := t } : Request)]).erase
          { call := call.id, transport := t } = s.inFlight := by
        rw [List.erase_append_right _ hfresh, List.erase_cons_head, List.append_nil]
      rw [herase] at hanswered
      simp only [herror, Option.getD_some]
      exact hanswered

/-- **One event keeps every answer with its own command**, if it is in order. -/
theorem sound_step (hweb : options.kind = .web) (s : WebSystem) (e : Event)
    (h : s.Sound integerOf) (horder : s.InOrder e) :
    (step integerOf options s e).Sound integerOf := by
  cases e with
  | own e =>
    rw [step, own]
    split
    · rename_i hown
      by_cases hgrace : e = .graceEnds
      · subst hgrace
        have hsame : Query.step integerOf options s.client .graceEnds = s.client := by
          have hnothing : Query.graceEnds s.client.answers = { answers := s.client.answers } := by
            cases hp : s.client.answers.pending with
            | none => exact graceEnds_of_idle hp
            | some p =>
              have hheld := (h.waiting p hp).1
              simp only [Query.graceEnds, hp, hheld]
          rw [Query.step, hnothing]
          simp [Client.take]
        rw [hsame]
        exact h
      · exact h.own (Client.kept_step h.orderly integerOf options hown hgrace)
          (Client.steady_step integerOf options hown hgrace)
          (Client.wellFormed_step integerOf options s.client e h.orderly.toWellFormed)
    · exact h
  | write => exact h.write hweb horder
  | gaveUp => exact h.gaveUp
  | responds call response =>
    rw [step, responds]
    split
    · exact h
    · rename_i r hfind
      have hr := List.mem_of_find?_eq_some hfind
      have hcall : r.call = call := by simpa using List.find?_some hfind
      have hinOrder := horder r hfind
      dsimp only
      split
      · rename_i hlive
        rw [if_pos hlive.1] at hinOrder
        obtain ⟨p, hp, hpcall⟩ := (Option.any_eq_true _ _).mp hlive.1
        have hclear : s.client.answers.abandoned = 0 := by
          rw [h.abandoned, hinOrder.1]
          rfl
        have hpcall' : r.call = p.call := hcall.trans (of_decide_eq_true hpcall).symm
        have hanswered := h.answered hweb hp hr hpcall' hlive.2 hclear _ hinOrder.2
          (errorOfLine_errorLine response)
        rw [hp, ← hcall, hpcall']
        exact hanswered
      · rename_i hdead
        refine h.rejects hr ?_
        cases hwaiting : s.isWaiting call with
        | true =>
          intro hcounted
          obtain ⟨p, hp, hpcall⟩ := (Option.any_eq_true _ _).mp hwaiting
          have := h.not_counted hp hr (hcall.trans (of_decide_eq_true hpcall).symm)
          rw [hcounted] at this
          cases this
        | false =>
          rw [hwaiting] at hinOrder
          exact hinOrder
  | fails call =>
    rw [step, fails]
    split
    · exact h
    · rename_i r hfind
      exact h.rejects (List.mem_of_find?_eq_some hfind) (horder r hfind)

/-! ### Runs -/

/-- Every call has what is its own, and the number of answers to let pass is what it
should be. -/
structure OwnResponses (integerOf : Str → Option Int) (s : WebSystem) : Prop where
  settled : ∀ o ∈ s.client.trace, ∀ call result, o.answer? = some (call, result) →
    HasResponse integerOf s.responded call result
  once : s.respondedCalls.Nodup
  /-- The answer that is waited for is still to come. -/
  waiting : ∀ p, s.client.answers.pending = some p → ∃ r ∈ s.inFlight, r.call = p.call
  nonneg : 0 ≤ s.client.answers.abandoned
  none : s.inFlight = [] → s.client.answers.abandoned = 0

theorem Sound.ownResponses (h : s.Sound integerOf) : s.OwnResponses integerOf where
  settled := h.told
  once := h.nodup.of_append_right
  waiting p hp := by
    obtain ⟨-, -, r, hr, hcall, -⟩ := h.waiting p hp
    exact ⟨r, hr, hcall⟩
  nonneg := by
    rw [h.abandoned]
    exact Int.natCast_nonneg _
  none hnone := by
    rw [h.abandoned, hnone]
    rfl

/-- **In every run whose events are all in order, every call that settles with an answer
settles with that of its own request**, none waits for one that has come, and no more
answers are let pass than are still to come. -/
theorem web_paired (integerOf : Str → Option Int) (options : Options)
    (hweb : options.kind = .web) {es : List Event}
    (horder : Along (step integerOf options) InOrder {} es) :
    (run (step integerOf options) {} es).OwnResponses integerOf :=
  (run_invariant_along (fun s e h => sound_step hweb s e h) sound_init horder).ownResponses

/-- A command is given up on, and a `use` waits behind it. -/
def useWaits : List Event :=
  [.own .connect, .own (.opened 1 false true), .own (.exec (.of "clientlist")),
    .own (.exec (.of "use sid=2")), .own (.turn false), .write, .gaveUp]

/-- The request of the first fails before the `use` has its turn. -/
theorem web_paired_use :
    (run (step (fun _ => none) { kind := .web }) {}
      (useWaits ++ [.fails 0, .own (.turn false), .write])).OwnResponses (fun _ => none) :=
  web_paired (fun _ => none) { kind := .web } rfl (by decide)

/-- The `use` has its turn before that, and waits for an answer that has come. -/
theorem web_use_unpaired :
    ¬ (run (step (fun _ => none) { kind := .web }) {}
      (useWaits ++ [.own (.turn false), .write, .fails 0])).OwnResponses (fun _ => none) := by
  intro h
  have hnonneg := h.nonneg
  revert hnonneg
  decide

end WebSystem

end Teamspeak.Query
