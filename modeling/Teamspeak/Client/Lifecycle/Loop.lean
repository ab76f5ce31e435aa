import Teamspeak.Client.Lifecycle.Pursuit

/-!
# What the reconnect loop may do

* `disconnect_final`: **after `disconnect()` the client stays as it is until a caller connects**:
  the loop and the calls of before begin no attempt, and the policy is asked nothing.
* `retries_permitted`: **in every run, every attempt of the loop, and every `disconnected` that
  tells of one to come, was permitted before by the policy**.
-/

namespace Teamspeak.Client

namespace Lifecycle

def Event.isConnect : Event → Bool
  | .connect _ _ => true
  | _ => false

variable {c c' c'' : Lifecycle}

/-! ### After a `disconnect()` -/

/-- The client is disconnected, at link `a`, and nothing but a new call can connect it. -/
structure Final (a : LinkID) (c : Lifecycle) : Prop where
  status : c.status = .disconnected
  link : c.link = a
  stopped : c.stopped = true
  overtaken : ∀ k d, c.pursuit.since k = some d → d < c.disconnects

variable {a : LinkID}

theorem Final.not_awaited (h : Final a c) (k : ConnectID) :
    c.pursuit.since k ≠ some c.disconnects :=
  fun hk => Nat.lt_irrefl _ (h.overtaken k _ hk)

/-- No call comes to wait for an attempt. -/
theorem Final.of_pursuit (h : Final a c) (hlink : c'.pursuit.link = c.pursuit.link)
    (hstopped : c'.pursuit.stopped = c.pursuit.stopped)
    (hd : c'.pursuit.disconnects = c.pursuit.disconnects)
    (hsince : ∀ k, c'.pursuit.since k = none ∨ c'.pursuit.since k = c.pursuit.since k)
    (hs : c'.status = c.status) : Final a c' where
  status := hs.trans h.status
  link := hlink.trans h.link
  stopped := hstopped.trans h.stopped
  overtaken k d hk := by
    have hle : d < c.pursuit.disconnects := by
      rcases hsince k with hnone | hsame
      · cases hnone.symm.trans hk
      · exact h.overtaken k d (hsame.symm.trans hk)
    exact Nat.lt_of_lt_of_eq hle hd.symm

theorem Final.of_eq (h : Final a c) (hpursuit : c'.pursuit = c.pursuit)
    (hs : c'.status = c.status) : Final a c' := by
  refine h.of_pursuit ?_ ?_ ?_ (fun k => Or.inr ?_) hs <;> rw [hpursuit]

theorem Final.waits (h : Final a c) {k : ConnectID}
    (hpursuit : c'.pursuit = c.pursuit.waits k none) (hs : c'.status = c.status) : Final a c' := by
  refine h.of_pursuit ?_ ?_ ?_ (fun j => ?_) hs
  · rw [hpursuit]
    rfl
  · rw [hpursuit]
    rfl
  · rw [hpursuit]
    rfl
  · rw [hpursuit]
    by_cases hj : j = k
    · exact Or.inl (if_pos hj)
    · exact Or.inr (if_neg hj)

theorem Final.endLoop (h : Final a c) : Final a c.endLoop :=
  h.of_pursuit rfl rfl rfl (fun _ => Or.inr rfl) rfl

/-- Nothing fails or drops where nothing is connected. -/
theorem steady_of_pursues {p : Prop} (hs : c.status = .disconnected)
    (hpursues : Relation.ReflTransGen (Pursues p) c c') : Steady c c' := by
  induction hpursues with
  | refl => exact .refl c
  | tail _ hnext ih =>
    have hdown := ih.down.mpr hs
    cases hnext with
    | steady hsteady => exact ih.trans hsteady
    | failed cause w hfailed => cases hdown.symm.trans hfailed.status
    | dropped cause w hdropped => cases hdown.symm.trans hdropped.status

theorem Final.pursues {p : Prop} (h : Final a c)
    (hpursues : Relation.ReflTransGen (Pursues p) c c') : Final a c' ∧ Aside c c' := by
  have hsteady := steady_of_pursues h.status hpursues
  exact ⟨h.of_eq hsteady.pursuit ((hsteady.down.mpr h.status).trans h.status.symm), hsteady.aside⟩

/-- No call goes on to its attempt. -/
theorem Final.proceeds (h : Final a c) {k : ConnectID} (hproceeds : Proceeds c.pursuit k c c') :
    Final a c' ∧ Aside c c' := by
  cases hproceeds with
  | waits hpursuit htrace hs => exact ⟨h.of_eq hpursuit hs, .of_eq htrace⟩
  | rejected hpursuit htrace hs hwhy => exact ⟨h.waits hpursuit hs, .of_eq htrace⟩
  | begins hd => exact absurd hd (h.not_awaited k)

/-- The loop, stopped, makes no further round. -/
theorem Rounds.of_stopped {err : ClientError} {n : Nat} (h : Rounds c err n c')
    (hstopped : c.stopped = true) : c' = c.endLoop := by
  obtain ⟨d, w, hanswered, rfl⟩ := h
  cases hanswered with
  | barred => rfl
  | known w options ho hs => cases hstopped.symm.trans hs
  | asks options ho hs => cases hstopped.symm.trans hs

theorem Final.advances (h : Final a c) {e : Event} (hadvances : Advances c e c')
    (he : e.isConnect = false) : Final a c' ∧ Aside c c' := by
  cases hadvances with
  | other _ _ hpursues => exact h.pursues hpursues
  | refused => cases he
  | connects => cases he
  | goesOn k _ hw hproceeds => exact h.proceeds hproceeds
  | cut k reason _ hw hpursuit htrace hs => exact ⟨h.waits hpursuit hs, .of_eq htrace⟩
  | stops aborted _ hpursuit haside hs =>
    refine ⟨⟨hs, ?_, ?_, fun k d hk => ?_⟩, haside⟩
    · exact (congrArg Pursuit.link hpursuit).trans h.link
    · exact congrArg Pursuit.stopped hpursuit
    · have hdisconnects : c'.disconnects = c.disconnects + 1 :=
        congrArg Pursuit.disconnects hpursuit
      rw [hpursuit] at hk
      rw [hdisconnects]
      exact Nat.lt_succ_of_lt (h.overtaken k d hk)
  | gaveUp => exact ⟨h.endLoop, .of_eq rfl⟩
  | attempts n _ hloop hstopped => cases h.stopped.symm.trans hstopped
  | ended => exact ⟨h.endLoop, .of_eq rfl⟩
  | retries n k result err _ hloop hdone hwhy hrounds =>
    rw [hrounds.of_stopped h.stopped]
    exact ⟨h.endLoop, .of_eq rfl⟩

theorem Final.step (h : Final a c ∧ Aside c'' c) (hsound : c.outline.Sound) {e : Event}
    (he : e.isConnect = false) : Final a (c.step e) ∧ Aside c'' (c.step e) := by
  obtain ⟨hfinal, haside⟩ := h.1.advances (advances_happen hsound e) he
  exact ⟨hfinal.of_eq rfl rfl, (h.2.trans haside).trans (.of_eq rfl)⟩

/-- A policy that always retries. -/
def alwaysRetries : ReconnectOptions := { shouldRetry := fun _ _ _ => some true }

/-- A client connects and drops, and its loop, having slept, waits to connect again. -/
def droppedRun : List Event :=
  [.connect false none, .resolved 0 (.ok ()), .opened 0 (.ok ()),
    .datagram [.cryptoInit, .initserver .empty true], .woken 0, .closes none, .slept]

/-- The policy permits attempt `n` after `err`, and was asked before: in what is shown, it said
so. -/
def Permitted (reconnect : Option ReconnectOptions) (t : List Shown) (err : ClientError)
    (n : Nat) : Prop :=
  ∃ options, reconnect = some options ∧
    (options.policy.maxAttempts = 0 ∨ n ≤ options.policy.maxAttempts) ∧
      ∃ pre post, t = pre ++ .asked err n :: post ∧ options.shouldRetry err n pre.length = some true

theorem Permitted.append {reconnect : Option ReconnectOptions} {t l : List Shown}
    {err : ClientError} {n : Nat} (h : Permitted reconnect t err n) :
    Permitted reconnect (t ++ l) err n := by
  obtain ⟨options, ho, hn, pre, post, rfl, hretry⟩ := h
  exact ⟨options, ho, hn, pre, post ++ l, by rw [List.append_assoc, List.cons_append], hretry⟩

/-- What is shown of the loop is permitted by what was shown before. -/
def Justified (p : Pursuit) (pre : List Shown) : Shown → Prop
  | .retried a => a ≤ p.link ∧ (p.attempt a).2 = true ∧ 0 < (p.attempt a).1 ∧
      ∃ err, Permitted p.reconnect pre err (p.attempt a).1
  | .queued (.disconnected _ cause true) =>
    ∃ err n, cause = some err ∧ 0 < n ∧ Permitted p.reconnect pre err n
  | _ => True

/-- What the policy answered, the loop, and the calls and attempts of the loop, are permitted. -/
structure Lawful (p : Pursuit) (t : List Shown) : Prop where
  answer : ∀ err n, p.retryAnswer = some ⟨err, n, true⟩ → Permitted p.reconnect t err n
  loop : ∀ l, p.loop = some l → 0 < l.attempt ∧ ∃ err, Permitted p.reconnect t err l.attempt
  calls : ∀ k, (p.call k).2 = true →
    0 < (p.call k).1 ∧ ∃ err, Permitted p.reconnect t err (p.call k).1
  shown : Log.Founded (Justified p) t

theorem justified_of_isAside {p : Pursuit} {pre : List Shown} {shown : Shown}
    (h : shown.isAside = true) : Justified p pre shown := by
  rcases shown with _ | _ | _ | (_ | _ | _ | ⟨_, _ | _, _ | _⟩ | _) | _ | _ | _ | _ | _ | _ <;>
    trivial

/-- What was shown stays justified, where the attempts that were made are what they were. -/
theorem founded_append {p q : Pursuit} {t l : List Shown} (h : Log.Founded (Justified p) t)
    (hreconnect : q.reconnect = p.reconnect)
    (hattempts : ∀ a, a ≤ p.link → a ≤ q.link ∧ q.attempt a = p.attempt a)
    (hshown : ∀ mid o post, l = mid ++ o :: post → Justified q (t ++ mid) o) :
    Log.Founded (Justified q) (t ++ l) := by
  refine Log.Founded.append_of_place (fun pre o post heq => ?_) hshown
  have hjustified := h pre o post heq
  cases haside : o.isAside with
  | true => exact justified_of_isAside haside
  | false =>
    rcases o with _ | _ | _ | (_ | _ | _ | ⟨_, _, _ | _⟩ | _) | _ | _ | a | _ | _ | _
    case retried =>
      obtain ⟨hle, hours, hpermitted⟩ := hjustified
      obtain ⟨hle', hsame⟩ := hattempts a hle
      rw [Justified, hreconnect, hsame]
      exact ⟨hle', hours, hpermitted⟩
    case queued.disconnected.true => rwa [Justified, hreconnect]
    all_goals trivial

namespace Lawful

variable {p : Pursuit} {t l : List Shown}

theorem append (h : Lawful p t) (hshown : ∀ mid o post, l = mid ++ o :: post →
    Justified p (t ++ mid) o) : Lawful p (t ++ l) where
  answer err n hsome := (h.answer err n hsome).append
  loop l hsome := by
    obtain ⟨hpos, err, hpermitted⟩ := h.loop l hsome
    exact ⟨hpos, err, hpermitted.append⟩
  calls k hk := by
    obtain ⟨hpos, err, hpermitted⟩ := h.calls k hk
    exact ⟨hpos, err, hpermitted.append⟩
  shown := founded_append h.shown rfl (fun _ ha => ⟨ha, rfl⟩) hshown

theorem aside (h : Lawful p t) (hl : ∀ shown ∈ l, shown.isAside = true) : Lawful p (t ++ l) := by
  apply h.append
  rintro mid o post rfl
  exact justified_of_isAside (hl o (List.mem_append_right _ List.mem_cons_self))

/-- `disconnected` tells what the policy answered. -/
theorem told (h : Lawful p t) (a : LinkID) {err : ClientError} {n : Nat} {w : Bool} (hn : 0 < n)
    (hw : w = true → Permitted p.reconnect t err n) :
    Lawful p (t ++ [.queued (.disconnected a (some err) w)]) := by
  apply h.append
  intro mid o post heq
  rw [List.singleton_eq_append_iff] at heq
  rcases heq with ⟨rfl, heq⟩ | ⟨-, heq⟩
  · cases heq
    cases w with
    | false => trivial
    | true =>
      rw [List.append_nil]
      exact ⟨err, n, rfl, hn, hw rfl⟩
  · cases heq

theorem endLoop (h : Lawful p t) (n : Nat) :
    Lawful { p with loop := none, loopAttempt := n } t where
  answer := h.answer
  loop l hsome := by cases hsome
  calls := h.calls
  shown := h.shown

theorem answered (h : Lawful c.pursuit c.trace) {err : ClientError} {n : Nat} {w : Bool}
    (hanswered : Answered c err n c' w) :
    Lawful c'.pursuit c'.trace ∧ (w = true → Permitted c'.reconnect c'.trace err n) := by
  cases hanswered with
  | barred => exact ⟨h, fun hw => by cases hw⟩
  | known w options ho hs hn hsome =>
    refine ⟨h, fun hw => ?_⟩
    subst hw
    exact h.answer err n hsome
  | asks options ho hs hn hnew =>
    have hpermitted : (options.shouldRetry err n c.trace.length).getD false = true →
        Permitted c.reconnect (c.trace ++ [.asked err n]) err n := by
      intro hw
      refine ⟨options, ho, hn, c.trace, [], rfl, ?_⟩
      cases hretry : options.shouldRetry err n c.trace.length with
      | none =>
        rw [hretry] at hw
        cases hw
      | some retry =>
        rw [hretry] at hw
        exact congrArg some hw
    have hshown : Lawful c.pursuit (c.trace ++ [.asked err n]) := by
      apply h.append
      intro mid o post heq
      rw [List.singleton_eq_append_iff] at heq
      rcases heq with ⟨-, heq⟩ | ⟨-, heq⟩
      · cases heq
        trivial
      · cases heq
    refine ⟨⟨fun err' n' hsome => ?_, hshown.loop, hshown.calls, hshown.shown⟩, hpermitted⟩
    have hw : RetryAnswer.mk err n ((options.shouldRetry err n c.trace.length).getD false) =
        ⟨err', n', true⟩ := Option.some.inj hsome
    rw [RetryAnswer.mk.injEq] at hw
    obtain ⟨rfl, rfl, hw⟩ := hw
    exact hpermitted hw

theorem rounds (h : Lawful c.pursuit c.trace) {err : ClientError} {n : Nat} (hn : 0 < n)
    (hrounds : Rounds c err n c') : Lawful c'.pursuit c'.trace := by
  obtain ⟨d, w, hanswered, rfl⟩ := hrounds
  obtain ⟨hlawful, hpermitted⟩ := h.answered hanswered
  cases w with
  | false => exact hlawful.endLoop 0
  | true =>
    refine ⟨hlawful.answer, fun l hl => ?_, hlawful.calls, hlawful.shown⟩
    have hl' : some (Loop.mk n none) = some l := hl
    rw [← Option.some.inj hl']
    exact ⟨hn, err, hpermitted rfl⟩

theorem steady (h : Lawful c.pursuit c.trace) (hsteady : Steady c c') :
    Lawful c'.pursuit c'.trace := by
  obtain ⟨l, htrace, haside⟩ := hsteady.aside
  rw [hsteady.pursuit, htrace]
  exact h.aside haside

theorem of_eq (h : Lawful c.pursuit c.trace) (hpursuit : c'.pursuit = c.pursuit)
    (htrace : c'.trace = c.trace) : Lawful c'.pursuit c'.trace := by
  rw [hpursuit, htrace]
  exact h

theorem failed {q : Prop} (h : Lawful c.pursuit c.trace) {cause : ClientError} {w : Bool}
    (hfailed : Failed q c c' cause w) : Lawful c'.pursuit c'.trace := by
  obtain ⟨d, e, ⟨l, htrace, haside⟩, -, hpursuit, hasked, htold, hsame⟩ := hfailed.told
  have hd : Lawful d.pursuit d.trace := by
    rw [hpursuit, htrace]
    exact h.aside haside
  rw [htold, hsame]
  split at hasked
  · obtain ⟨he, hpermitted⟩ := hd.answered hasked
    exact he.told c.link (Nat.succ_pos _) hpermitted
  · obtain ⟨rfl, rfl⟩ := hasked
    exact hd.told c.link Nat.one_pos fun hw => by cases hw

theorem dropped {q : Prop} (h : Lawful c.pursuit c.trace) {cause : ClientError} {w : Bool}
    (hdropped : Dropped q c c' cause w) : Lawful c'.pursuit c'.trace := by
  obtain ⟨d, e, f, ⟨l, htrace, haside⟩, hpursuit, hasked, htold, hsame, hends⟩ := hdropped.told
  have hd : Lawful d.pursuit d.trace := by
    rw [hpursuit, htrace]
    have hdropped := h.aside haside
    exact ⟨hdropped.answer, hdropped.loop, hdropped.calls, hdropped.shown⟩
  obtain ⟨he, hpermitted⟩ := hd.answered hasked
  have hf : Lawful f.pursuit f.trace := by
    rw [htold, hsame]
    exact he.told c.link (Nat.succ_pos _) hpermitted
  rcases hends with ⟨rfl, -⟩ | ⟨-, hrounds⟩
  · exact hf
  · exact hf.rounds Nat.one_pos hrounds

theorem pursues {q : Prop} (h : Lawful c.pursuit c.trace)
    (hpursues : Relation.ReflTransGen (Pursues q) c c') : Lawful c'.pursuit c'.trace := by
  induction hpursues with
  | refl => exact h
  | tail _ hnext ih =>
    cases hnext with
    | steady hsteady => exact ih.steady hsteady
    | failed cause w hfailed => exact ih.failed hfailed
    | dropped cause w hdropped => exact ih.dropped hdropped

/-- A call is made: a caller's, or one that the policy permits. -/
theorem calls_made (h : Lawful p t) (k : ConnectID) (since : Option Nat) {n : Nat} {ours : Bool}
    (hours : ours = true → 0 < n ∧ ∃ err, Permitted p.reconnect t err n) :
    Lawful ((p.calls k (n, ours)).waits k since) t where
  answer := h.answer
  loop := h.loop
  calls j hj := by
    by_cases heq : j = k
    · subst heq
      simp only [Pursuit.waits, Pursuit.calls, if_true] at hj ⊢
      exact hours hj
    · simp only [Pursuit.waits, Pursuit.calls, heq, if_false] at hj ⊢
      exact h.calls j hj
  shown := h.shown

theorem begins (h : Lawful p t) (k : ConnectID) :
    Lawful (p.begins k) (t ++ if (p.call k).2 then [.retried (p.link + 1)] else []) := by
  have hattempts : ∀ a, a ≤ p.link →
      a ≤ (p.begins k).link ∧ (p.begins k).attempt a = p.attempt a := fun a ha =>
    ⟨Nat.le_succ_of_le ha, if_neg (Nat.ne_of_lt (Nat.lt_succ_of_le ha))⟩
  have hattempt : (p.begins k).attempt (p.link + 1) = p.call k := if_pos rfl
  refine ⟨fun err n hsome => (h.answer err n hsome).append, fun l hl => ?_, fun j hj => ?_,
    founded_append h.shown rfl hattempts fun mid o post heq => ?_⟩
  · obtain ⟨hpos, err, hpermitted⟩ := h.loop l hl
    exact ⟨hpos, err, hpermitted.append⟩
  · obtain ⟨hpos, err, hpermitted⟩ := h.calls j hj
    exact ⟨hpos, err, hpermitted.append⟩
  · split at heq
    · rename_i hours
      rw [List.singleton_eq_append_iff] at heq
      rcases heq with ⟨rfl, heq⟩ | ⟨-, heq⟩
      · cases heq
        rw [Justified, hattempt, List.append_nil]
        exact ⟨Nat.le_refl _, hours, h.calls k hours⟩
      · cases heq
    · exact absurd heq.symm (List.append_ne_nil_of_right_ne_nil _ (List.cons_ne_nil _ _))

theorem waits (h : Lawful p t) (k : ConnectID) (since : Option Nat) : Lawful (p.waits k since) t :=
  ⟨h.answer, h.loop, h.calls, h.shown⟩

theorem proceeds (h : Lawful p c.trace) {k : ConnectID} (hproceeds : Proceeds p k c c') :
    Lawful c'.pursuit c'.trace := by
  cases hproceeds with
  | waits hpursuit htrace =>
    rw [hpursuit, htrace]
    exact h
  | rejected hpursuit htrace =>
    rw [hpursuit, htrace]
    exact h.waits k none
  | begins hd hdown haddress hpursuit htrace =>
    rw [hpursuit, htrace]
    exact h.begins k

theorem advances (h : Lawful c.pursuit c.trace) {e : Event} (hadvances : Advances c e c') :
    Lawful c'.pursuit c'.trace := by
  cases hadvances with
  | other _ _ hpursues => exact h.pursues hpursues
  | refused signal reason _ hpursuit htrace =>
    have hmade : Lawful ((c.pursuit.calls c.nextConnect (1, false)).waits c.nextConnect none)
        c.trace := h.calls_made c.nextConnect none fun hours => by cases hours
    rw [hpursuit, htrace]
    exact ⟨hmade.answer, hmade.loop, hmade.calls, hmade.shown⟩
  | connects signal _ hproceeds =>
    exact (h.calls_made c.nextConnect _ fun hours => by cases hours).proceeds hproceeds
  | goesOn k _ hw hproceeds => exact h.proceeds hproceeds
  | cut k reason _ hw hpursuit htrace =>
    rw [hpursuit, htrace]
    exact h.waits k none
  | stops aborted _ hpursuit haside =>
    obtain ⟨l, htrace, hl⟩ := haside
    have hshown := h.aside hl
    rw [hpursuit, htrace]
    exact ⟨hshown.answer, hshown.loop, hshown.calls, hshown.shown⟩
  | gaveUp => exact h.endLoop 0
  | attempts n _ hloop hstopped hdown hproceeds =>
    -- The loop was permitted this attempt before it slept.
    have hpermitted := h.loop ⟨n, none⟩ hloop
    have hattempts : Lawful { c.pursuit with
        loopAttempt := n, loop := some ⟨n, some c.nextConnect⟩ } c.trace := by
      refine ⟨h.answer, fun l hl => ?_, h.calls, h.shown⟩
      have hl' : some (Loop.mk n (some c.nextConnect)) = some l := hl
      rw [← Option.some.inj hl']
      exact hpermitted
    exact (hattempts.calls_made c.nextConnect _ fun _ => hpermitted).proceeds hproceeds
  | ended => exact h.endLoop 0
  | retries n k result err _ hloop hdone hwhy hrounds => exact h.rounds (Nat.succ_pos n) hrounds

end Lawful

theorem lawful_new (reconnect : Option ReconnectOptions) (addressable : Bool) :
    Lawful (new reconnect addressable).pursuit (new reconnect addressable).trace where
  answer err n hsome := by cases hsome
  loop l hl := by cases hl
  calls k hk := by cases hk
  shown := Log.Founded.nil

theorem lawful_run (reconnect : Option ReconnectOptions) (addressable : Bool) (es : List Event) :
    Lawful (run step (new reconnect addressable) es).pursuit
      (run step (new reconnect addressable) es).trace := by
  have hkept : ∀ (c : Lifecycle) (e : Event), c.Lives ∧ Lawful c.pursuit c.trace →
      (c.step e).Lives ∧ Lawful (c.step e).pursuit (c.step e).trace := by
    rintro c e ⟨hlives, h⟩
    exact ⟨hlives.step e, (h.advances (advances_happen hlives.sound e)).of_eq rfl rfl⟩
  exact (run_invariant hkept es
    ⟨lives_new reconnect addressable, lawful_new reconnect addressable⟩).2

/-- What the loop attempts, and what `disconnected` tells of it, is as the policy has it. -/
structure RetriesPermitted (c : Lifecycle) : Prop where
  retried : ∀ pre a post, c.trace = pre ++ .retried a :: post →
    (c.links a).reconnect = true ∧ 0 < (c.links a).number ∧
      ∃ err, Permitted c.reconnect pre err (c.links a).number
  told : ∀ pre a err post, c.trace = pre ++ .queued (.disconnected a (some err) true) :: post →
    ∃ n, 0 < n ∧ Permitted c.reconnect pre err n
  left : ∀ a w, .queued (.disconnected a none w) ∈ c.trace → w = false

/-- **No attempt of the loop, and no promise of one, without the policy's permission**: it was
asked of that very attempt, said so, and the attempt is within its bound. -/
theorem retries_permitted (reconnect : Option ReconnectOptions) (addressable : Bool)
    (es : List Event) : (run step (new reconnect addressable) es).RetriesPermitted := by
  have hlawful := lawful_run reconnect addressable es
  generalize run step (new reconnect addressable) es = c at hlawful
  refine ⟨fun pre a post heq => ?_, fun pre a err post heq => ?_, fun a w hin => ?_⟩
  · exact (hlawful.shown pre _ post heq).2
  · obtain ⟨err', n, hcause, hn, hpermitted⟩ := hlawful.shown pre _ post heq
    cases hcause
    exact ⟨n, hn, hpermitted⟩
  · obtain ⟨pre, post, heq⟩ := List.append_of_mem hin
    cases w with
    | false => rfl
    | true =>
      obtain ⟨err, n, hcause, -⟩ := hlawful.shown pre _ post heq
      cases hcause

end Lifecycle

end Teamspeak.Client
