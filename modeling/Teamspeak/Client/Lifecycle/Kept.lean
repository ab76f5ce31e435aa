import Teamspeak.Client.Lifecycle.Announced

/-!
# The loop keeps its word

Once `disconnected` tells that the client reconnects, and until somebody leaves, an attempt of
the loop is `Due`.  `carryOn` is what the loop may still wait for.

* `keeps_word`: **in every undisturbed run, after a `disconnected` that tells so and with no
  `disconnect()` since, the loop's attempt has begun, or it begins as soon as what the loop waits
  for has come**.
-/

namespace Teamspeak.Client

namespace Lifecycle

variable {c c' : Lifecycle} {p : Pursuit} {a : LinkID} {cause : ClientError}

def Event.isDisconnect : Event → Bool
  | .disconnect _ => true
  | _ => false

/-- `disconnected` told of link `a`, which is the last so far, that the client reconnects, and
nobody has left since. -/
structure Due (a : LinkID) (cause : ClientError) (c : Lifecycle) : Prop where
  link : c.link = a
  stopped : c.stopped = false
  told : Told c.trace a cause true

/-- The attempt of the loop after link `a` is due, or has begun. -/
def Followed (a : LinkID) (cause : ClientError) (c : Lifecycle) : Prop :=
  Due a cause c ∨ .retried (a + 1) ∈ c.trace

theorem Due.later (h : Due a cause c) (hlink : c'.pursuit.link = c.pursuit.link)
    (hstopped : c'.pursuit.stopped = c.pursuit.stopped) (htrace : c.trace ⊆ c'.trace) :
    Due a cause c' :=
  ⟨hlink.trans h.link, hstopped.trans h.stopped, htrace h.told⟩

theorem Due.steady (h : Due a cause c) (hsteady : Steady c c') : Due a cause c' := by
  obtain ⟨l, htrace, -⟩ := hsteady.aside
  exact h.later (congrArg Pursuit.link hsteady.pursuit) (congrArg Pursuit.stopped hsteady.pursuit)
    fun _ => htrace ▸ List.mem_append_left _

/-- The client is disconnected, and the loop is there. -/
theorem Due.pursued (h : Due a cause c) (hc : c.Undisturbed) :
    c.status = .disconnected ∧ c.loop ≠ none := by
  obtain ⟨rfl, hstopped, htold⟩ := h
  have hdown := (hc.honest.later _ _ _ htold).2.1 rfl
  exact ⟨hdown, (hc.honest.reported hdown hstopped cause true htold).1 rfl⟩

/-- A call of the loop goes on. -/
theorem Due.proceeds (h : Due a cause c) {k : ConnectID} (hlink : p.link = c.link)
    (hstopped : p.stopped = c.stopped) (hours : (p.call k).2 = true)
    (hproceeds : Proceeds p k c c') :
    Due a cause c' ∧ c'.pursuit.loop = p.loop ∧ c'.pursuit.callLink = p.callLink ∨
      .retried (a + 1) ∈ c'.trace := by
  cases hproceeds with
  | waits hpursuit htrace =>
    rw [hpursuit]
    exact Or.inl ⟨h.later (by rw [hpursuit]; exact hlink) (by rw [hpursuit]; exact hstopped)
      fun _ => htrace ▸ id, rfl, rfl⟩
  | rejected hpursuit htrace =>
    rw [hpursuit]
    exact Or.inl ⟨h.later (by rw [hpursuit]; exact hlink) (by rw [hpursuit]; exact hstopped)
      fun _ => htrace ▸ id, rfl, rfl⟩
  | begins hd hdown haddress hpursuit htrace =>
    right
    rw [htrace, if_pos hours, hlink, h.link]
    exact List.mem_append_right _ (List.mem_singleton.mpr rfl)

/-- The loop sleeps, or the attempt of its call has not begun. -/
def Ready (p : Pursuit) : Prop :=
  (∃ n, p.loop = some ⟨n, none⟩) ∨ ∃ n k, p.loop = some ⟨n, some k⟩ ∧ p.callLink k = 0

theorem Rounds.later {err : ClientError} {n : Nat} (h : Rounds c err n c') :
    c'.link = c.link ∧ c'.stopped = c.stopped ∧ c.trace ⊆ c'.trace ∧
      (c'.loop = none ∨ ∃ m, c'.loop = some ⟨m, none⟩) := by
  obtain ⟨d, w, hanswered, rfl⟩ := h
  obtain ⟨answer, l, rfl⟩ := hanswered.same
  cases w with
  | true => exact ⟨rfl, rfl, List.subset_append_left _ _, Or.inr ⟨n, rfl⟩⟩
  | false => exact ⟨rfl, rfl, List.subset_append_left _ _, Or.inl rfl⟩

/-- While an attempt is due, a step leaves the loop where it was, or carries it on. -/
theorem Due.happen (h : Due a cause c) (hc : c.Undisturbed) {e : Event}
    (he : c.undisturbed e = true) (hleaves : e.isDisconnect = false) :
    Due a cause (c.happen e) ∧ (Ready c.pursuit → (c.happen e).loop ≠ none →
      Ready (c.happen e).pursuit) ∨ .retried (a + 1) ∈ (c.happen e).trace := by
  obtain ⟨hdown, hloop⟩ := h.pursued hc
  have hadvances := advances_happen hc.lives.sound e
  generalize c.happen e = d at hadvances
  cases hadvances with
  | other _ _ hpursues =>
    have hsteady := steady_of_pursues hdown hpursues
    exact Or.inl ⟨h.steady hsteady, fun hready _ => hsteady.pursuit ▸ hready⟩
  | refused => exact absurd (Option.isNone_iff_eq_none.mp he) hloop
  | connects => exact absurd (Option.isNone_iff_eq_none.mp he) hloop
  | goesOn k _ hw hproceeds =>
    rw [undisturbed, Bool.or_eq_true, Bool.or_eq_true, Option.isNone_iff_eq_none,
      Option.isNone_iff_eq_none] at he
    rcases he with (hours | hnone) | hnone
    · refine (h.proceeds rfl rfl hours hproceeds).imp_left ?_
      rintro ⟨hdue, hsame, hcallLink⟩
      refine ⟨hdue, fun hready _ => ?_⟩
      rw [Ready, hsame, hcallLink]
      exact hready
    · exact absurd hnone hw
    · exact absurd hnone hloop
  | cut k reason _ hw hpursuit htrace =>
    refine Or.inl ⟨h.later ?_ ?_ fun _ => htrace ▸ id, fun hready _ => ?_⟩
    · rw [hpursuit]
      rfl
    · rw [hpursuit]
      rfl
    · rw [hpursuit]
      exact hready
  | stops => cases hleaves
  | gaveUp => exact Or.inl ⟨h.later rfl rfl fun _ => id, fun _ hnone => absurd rfl hnone⟩
  | attempts n _ _ _ _ hproceeds =>
    refine (h.proceeds rfl rfl (congrArg Prod.snd (if_pos rfl : _ = (n, true)))
      hproceeds).imp_left ?_
    rintro ⟨hdue, hsame, hcallLink⟩
    refine ⟨hdue, fun _ _ => Or.inr ⟨n, c.nextConnect, hsame, ?_⟩⟩
    rw [hcallLink]
    exact if_pos rfl
  | ended => exact Or.inl ⟨h.later rfl rfl fun _ => id, fun _ hnone => absurd rfl hnone⟩
  | retries n k result err _ _ _ _ hrounds =>
    obtain ⟨hlink, hs, htrace, hasleep⟩ := hrounds.later
    refine Or.inl ⟨h.later hlink hs htrace, fun _ hsome => ?_⟩
    exact Or.inl (hasleep.resolve_left hsome)

/-! ### What was shown stays -/

theorem told_of_does {r : Prop} {o o' : Account} (h : Account.Does r o o') :
    o.trace ⊆ o'.trace := by
  cases h with
  | frame hframe => exact hframe.later.told
  | overtaken _ _ _ hframe => exact hframe.later.told
  | fails _ _ hfails => exact hfails.later.told
  | drops _ _ hdrops => exact hdrops.later.told
  | connects _ hconnects => exact hconnects.later.told
  | begins _ _ _ hbegins => exact hbegins.told
  | takes _ htakes =>
    rw [htakes.same]
    exact fun _ => id
  | goes _ hgoes =>
    obtain ⟨-, _, -, rfl⟩ := hgoes
    exact fun _ => id
  | returns _ hreturns =>
    obtain ⟨-, _, -, rfl⟩ := hreturns
    exact fun _ => id
  | quits _ _ hquits => exact hquits.later.told
  | leaves _ _ _ _ hleaves => exact hleaves.later.told
  | left _ _ _ _ hleft =>
    obtain ⟨_, rfl⟩ := hleft
    exact fun _ => id

theorem shown_step (h : c.outline.Sound) (e : Event) : c.trace ⊆ (c.step e).trace := by
  have hdoes := does_step h e
  have hgrows : ∀ o o' : Account, Relation.ReflTransGen (Account.Does (c.failing e = true)) o o' →
      o.trace ⊆ o'.trace := by
    intro o o' hchain
    induction hchain with
    | refl => exact fun _ => id
    | tail _ hnext ih => exact fun _ hin => told_of_does hnext (ih hin)
  exact hgrows _ _ hdoes

theorem Followed.step (hc : c.Undisturbed) {e : Event} (he : c.undisturbed e = true)
    (hleaves : e.isDisconnect = false) (h : Followed a cause c) : Followed a cause (c.step e) := by
  rcases h with hdue | hretried
  · exact (hdue.happen hc he hleaves).imp (fun h => h.1.later rfl rfl fun _ => id) id
  · exact Or.inr (shown_step hc.lives.sound e hretried)

/-- The attempt is due, and nothing but a wait is before it; or it has begun. -/
def Poised (a : LinkID) (cause : ClientError) (c : Lifecycle) : Prop :=
  Due a cause c ∧ Ready c.pursuit ∨ .retried (a + 1) ∈ c.trace

theorem Poised.step (hc : c.Undisturbed) {e : Event} (he : c.undisturbed e = true)
    (hleaves : e.isDisconnect = false) (h : Poised a cause c) : Poised a cause (c.step e) := by
  rcases h with ⟨hdue, hready⟩ | hretried
  · rcases hdue.happen hc he hleaves with ⟨hdue', hkept⟩ | hbegun
    · have hdue'' : Due a cause (c.step e) := hdue'.later rfl rfl fun _ => id
      exact Or.inl ⟨hdue'', hkept hready (hdue''.pursued (hc.step he)).2⟩
    · exact Or.inr hbegun
  · exact Or.inr (shown_step hc.lives.sound e hretried)

/-! ### What the loop waits for -/

/-- Nobody is leaving where the client is to reconnect. -/
theorem Due.not_leaving (h : Due a cause c) (hc : c.Undisturbed) : c.leaving = none := by
  obtain ⟨rfl, -, htold⟩ := h
  by_contra hsome
  obtain ⟨l, hl⟩ := Option.ne_none_iff_exists'.mp hsome
  obtain ⟨-, hlink⟩ := hc.calls.1.leaving l hl
  cases hg : l.goodbye with
  | false =>
    have hleft := hc.calls.1.left l hl hg
    rw [hlink] at hleft
    cases (disconnected_unique hc.lives hleft htold).1
  | true =>
    -- Nothing is told of a link before its goodbye has ended.
    have hgoodbye : c.outline.goodbye = true := by
      rw [Outline.goodbye, show c.outline.leaving = some l from hl]
      exact hg
    have hpos : 0 < c.disconnections c.link :=
      List.countP_pos_iff.mpr ⟨_, htold, decide_eq_true rfl⟩
    have hfinished := hc.lives.told.finished c.link
    rw [disconnections_eq] at hpos
    split at hfinished
    · rename_i hover
      have hnot := ((over_iff hc.lives.told c.link).mpr hover).2.2 rfl
      cases hgoodbye.symm.trans hnot.2
    · exact absurd hfinished (Nat.pos_iff_ne_zero.mp hpos)

/-- The call that the loop waits for has returned with its attempt: the loop sleeps again. -/
theorem Due.resumed (h : Due a cause c) (hc : c.Undisturbed) {n : Nat} {k : ConnectID}
    {result : Except ClientError Unit} (hloop : c.loop = some ⟨n, some k⟩)
    (hdone : (c.connects k).waiting = .done result) :
    c.resumed.loop = some ⟨n + 1, none⟩ := by
  obtain ⟨hdown, -⟩ := h.pursued hc
  obtain ⟨rfl, hstopped, htold⟩ := h
  have hup : ¬(result = .ok () ∧ c.status = .connected) := by
    rintro ⟨-, hconnected⟩
    cases hconnected.symm.trans hdown
  obtain ⟨-, cause', w, htold', hknown, hok, herror⟩ :=
    hc.honest.resumes hc.lives hc.calls hloop hdone hstopped hup
  obtain ⟨-, rfl⟩ := disconnected_unique hc.lives htold htold'
  have hround : ∀ err, err = cause' → (c.round err (n + 1)).loop = some ⟨n + 1, none⟩ := by
    rintro err rfl
    rw [(rounds_round err (n + 1)).of_known hstopped hknown]
    rfl
  unfold Lifecycle.resumed
  rw [hloop]
  dsimp only
  rw [hdone]
  cases result with
  | ok =>
    have hnot : c.status ≠ .connected := fun hs => hup ⟨rfl, hs⟩
    dsimp only
    rw [if_neg hnot]
    exact hround _ (by rw [hok rfl]; rfl)
  | error e =>
    obtain ⟨halready, hsame⟩ := herror e rfl
    dsimp only
    rw [if_neg (by rw [halready]; exact Bool.false_ne_true)]
    exact hround _ (hsame c.clock)

/-- The call that the loop waits for comes to its end with its attempt, and the loop resumes. -/
def loopReturns (c : Lifecycle) : List Event :=
  match c.loop with
  | some ⟨_, some k⟩ => [.resolved k (.ok ()), .opened k (.ok ()), .woken k, .resumed]
  | _ => []

/-- What the call of the loop waits for has come. -/
def loopGoesOn (c : Lifecycle) : List Event :=
  match c.loop with
  | some ⟨_, some k⟩ => [.woken k]
  | _ => []

/-- All that the loop may wait for comes: the end of its last call, of its sleep, and of what is
queued. -/
def carryOn (c : Lifecycle) : Lifecycle :=
  let c := (run step c c.loopReturns).step .slept
  let c := run step c (List.replicate c.queue.length .deliver ++ [.delivered])
  run step c c.loopGoesOn

/-! #### Its last call -/

theorem waiting_resolved {k : ConnectID} (h : (c.connects k).waiting.disconnects? = none) :
    ((c.resolved k (.ok ())).connects k).waiting = .opening ∨
      ((c.resolved k (.ok ())).connects k).waiting = .settling ∨
        ∃ result, ((c.resolved k (.ok ())).connects k).waiting = .done result := by
  unfold resolved
  cases hw : (c.connects k).waiting with
  | leaving d l =>
    rw [hw] at h
    cases h
  | delivered d l =>
    rw [hw] at h
    cases h
  | resolving =>
    dsimp only
    split
    · exact Or.inr (Or.inl (by rw [await, connects_modifyConnect, if_pos rfl]))
    · exact Or.inl (by rw [await, connects_modifyConnect, if_pos rfl])
  | opening => exact Or.inl hw
  | settling => exact Or.inr (Or.inl hw)
  | done result => exact Or.inr (Or.inr ⟨result, hw⟩)

theorem waiting_opened {k : ConnectID} (h : (c.connects k).waiting = .opening ∨
    (c.connects k).waiting = .settling ∨ ∃ result, (c.connects k).waiting = .done result) :
    ((c.opened k (.ok ())).connects k).waiting = .settling ∨
      ∃ result, ((c.opened k (.ok ())).connects k).waiting = .done result := by
  unfold opened
  rcases h with hw | hw | ⟨result, hw⟩
  · rw [hw]
    dsimp only
    split
    · exact Or.inl (by rw [await, connects_modifyConnect, if_pos rfl])
    · exact Or.inl (by rw [await, connects_modifyConnect, if_pos rfl])
  · rw [hw]
    exact Or.inl hw
  · rw [hw]
    exact Or.inr ⟨result, hw⟩

theorem waiting_woken {k : ConnectID} (h : (c.connects k).waiting = .settling ∨
    ∃ result, (c.connects k).waiting = .done result)
    (hpromise : (c.links (c.connects k).link).promise ≠ none) :
    ∃ result, ((c.woken k).connects k).waiting = .done result := by
  unfold woken
  rcases h with hw | ⟨result, hw⟩
  · rw [hw]
    dsimp only
    split
    · rename_i hnone
      exact absurd hnone hpromise
    · rename_i result _
      exact ⟨result, by rw [finish, connects_modifyConnect, if_pos rfl]⟩
  · rw [hw]
    exact ⟨result, hw⟩

/-- Where the client is disconnected, no step is more than an aside but those of calls that wait,
of `disconnect()` and of the loop. -/
theorem steady_step (hsound : c.outline.Sound) (hdown : c.status = .disconnected) {e : Event}
    (he : c.isOther e = true) : Steady c (c.step e) :=
  (steady_of_pursues hdown (pursues_happen hsound he)).trans (.of_eq rfl rfl rfl)

/-- The promise of the attempt that the loop waits for has come to something. -/
theorem Due.promised (h : Due a cause c) (hc : c.Undisturbed) {k : ConnectID}
    (hpos : 0 < (c.connects k).link) (hlink : (c.connects k).link = c.link) :
    (c.links (c.connects k).link).promise ≠ none := by
  intro hnone
  rcases hc.calls.1.pending _ hpos (Nat.le_of_eq hlink) hnone with ⟨-, hs⟩ | ⟨⟨l, hl, -⟩, -⟩
  · cases (h.pursued hc).1.symm.trans hs
  · cases (h.not_leaving hc).symm.trans hl

theorem poised_returns (hc : c.Undisturbed) (h : Due a cause c) :
    (run step c c.loopReturns).Undisturbed ∧ Poised a cause (run step c c.loopReturns) := by
  obtain ⟨hdown, hsome⟩ := h.pursued hc
  unfold loopReturns
  cases hloop : c.loop with
  | none => exact absurd hloop hsome
  | some l =>
    obtain ⟨n, _ | k⟩ := l
    · exact ⟨hc, Or.inl ⟨h, Or.inl ⟨n, hloop⟩⟩⟩
    · have hresolved : Steady c (c.step (.resolved k (.ok ()))) :=
        steady_step hc.lives.sound hdown rfl
      have hc₁ := hc.step (e := .resolved k (.ok ())) rfl
      have hopened : Steady (c.step (.resolved k (.ok ())))
          ((c.step (.resolved k (.ok ()))).step (.opened k (.ok ()))) :=
        steady_step hc₁.lives.sound (hresolved.down.mpr hdown) rfl
      have hc₂ := hc₁.step (e := .opened k (.ok ())) rfl
      have hsteady := hresolved.trans hopened
      show Lifecycle.Undisturbed (((((c.step (.resolved k (.ok ()))).step (.opened k (.ok ()))).step
        (.woken k))).step .resumed) ∧ Poised a cause
          (((((c.step (.resolved k (.ok ()))).step (.opened k (.ok ()))).step (.woken k))).step
            .resumed)
      have hwaits : (c.connects k).waiting.disconnects? = none →
          (((c.step (.resolved k (.ok ()))).step (.opened k (.ok ()))).connects k).waiting =
            .settling ∨ ∃ result,
              (((c.step (.resolved k (.ok ()))).step (.opened k (.ok ()))).connects k).waiting =
                .done result := fun hnone =>
        waiting_opened (c := c.step (.resolved k (.ok ()))) (waiting_resolved hnone)
      generalize (c.step (.resolved k (.ok ()))).step (.opened k (.ok ())) = d at *
      have hdue := h.steady hsteady
      have hdloop : d.loop = some ⟨n, some k⟩ :=
        (congrArg Pursuit.loop hsteady.pursuit).trans hloop
      obtain ⟨hours, -, hcalled⟩ := hc₂.honest.called n k hdloop
      have hwoken : d.undisturbed (.woken k) = true := by
        rw [undisturbed, show (d.connects k).reconnect = true from hours]
        rfl
      have hc₃ := hc₂.step hwoken
      refine ⟨hc₃.step rfl, ?_⟩
      rcases hcalled with ⟨hzero, -⟩ | ⟨hpos, hlink⟩
      · -- Its attempt has not begun: it still waits, or it begins.
        have hpoised : Poised a cause d := Or.inl ⟨hdue, Or.inr ⟨n, k, hdloop, hzero⟩⟩
        exact (hpoised.step hc₂ hwoken rfl).step hc₃ rfl rfl
      · have hnone : d.pursuit.since k = none := by
          by_contra hwaits
          exact Nat.pos_iff_ne_zero.mp hpos (hc₂.honest.unbegun k hwaits)
        have hsince := congrFun (congrArg Pursuit.since hsteady.pursuit) k
        have hsettled := hwaits (hsince.symm.trans hnone)
        obtain ⟨result, hdone⟩ := waiting_woken hsettled (hdue.promised hc₂ hpos hlink)
        have hreturned : Steady d (d.step (.woken k)) :=
          (steady_woken hnone).trans (.of_eq rfl rfl rfl)
        have hdue₃ := hdue.steady hreturned
        have hloop₃ : (d.step (.woken k)).loop = some ⟨n, some k⟩ :=
          (congrArg Pursuit.loop hreturned.pursuit).trans hdloop
        have hasleep := hdue₃.resumed hc₃ hloop₃ hdone
        rcases hdue₃.happen hc₃ (e := .resumed) rfl rfl with ⟨hdue₄, -⟩ | hbegun
        · exact Or.inl ⟨hdue₄.later rfl rfl fun _ => id, Or.inl ⟨n + 1, hasleep⟩⟩
        · exact Or.inr hbegun

/-! #### Its sleep, and what is queued -/

/-- The loop does not sleep any more. -/
theorem loop_slept (n : Nat) : c.slept.loop ≠ some ⟨n, none⟩ := by
  unfold slept
  split
  · split
    · exact fun hnone => by cases hnone
    · exact fun hnone => by cases hnone
  · rename_i hnot
    exact hnot n

/-- The call of the loop waits for its attempt. -/
def Calling (p : Pursuit) : Prop := ∃ n k, p.loop = some ⟨n, some k⟩ ∧ p.callLink k = 0

theorem poised_slept (hc : c.Undisturbed) (h : Poised a cause c) :
    Due a cause (c.step .slept) ∧ Calling (c.step .slept).pursuit ∨
      .retried (a + 1) ∈ (c.step .slept).trace := by
  refine (h.step hc (e := .slept) rfl rfl).imp_left ?_
  rintro ⟨hdue, ⟨n, hasleep⟩ | hcalling⟩
  · exact absurd hasleep (loop_slept n)
  · exact ⟨hdue, hcalling⟩

/-- What is queued is delivered. -/
theorem due_delivers (hc : c.Undisturbed) (h : Due a cause c) (n : Nat) :
    (run step c (List.replicate n .deliver)).Undisturbed ∧
      Steady c (run step c (List.replicate n .deliver)) := by
  induction n generalizing c with
  | zero => exact ⟨hc, .refl c⟩
  | succ n ih =>
    have hdelivered : Steady c (c.step .deliver) := steady_deliver.trans (.of_eq rfl rfl rfl)
    obtain ⟨hundisturbed, hsteady⟩ := ih (hc.step (e := .deliver) rfl) (h.steady hdelivered)
    exact ⟨hundisturbed, hdelivered.trans hsteady⟩

theorem due_delivered (hc : c.Undisturbed) (h : Due a cause c) :
    (run step c (List.replicate c.queue.length .deliver ++ [.delivered])).Undisturbed ∧
      Steady c (run step c (List.replicate c.queue.length .deliver ++ [.delivered])) ∧
        (run step c (List.replicate c.queue.length .deliver ++ [.delivered])).disconnectedDelivered =
          none := by
  obtain ⟨hundisturbed, hsteady⟩ := due_delivers hc h c.queue.length
  obtain ⟨hqueue, -, -⟩ := delivers (c := c) c.queue.length
  rw [List.drop_length] at hqueue
  rw [run_concat]
  refine ⟨hundisturbed.step rfl, (hsteady.trans steady_delivered).trans (.of_eq rfl rfl rfl), ?_⟩
  show (Lifecycle.delivered _).disconnectedDelivered = none
  rw [Lifecycle.delivered, hqueue]
  rfl

/-- Nobody leaves, and every `disconnected` is delivered: the call begins its attempt. -/
theorem begins_woken {k : ConnectID} (hd : c.pursuit.since k = some c.disconnects)
    (hours : (c.connects k).reconnect = true) (hdown : c.status = .disconnected)
    (haddress : c.addressable = true) (hl : c.leaving = none)
    (hdelivered : c.disconnectedDelivered = none) :
    .retried (c.link + 1) ∈ (c.woken k).trace := by
  have hproceed : .retried (c.link + 1) ∈ (c.proceed k c.disconnects).trace := by
    have htrace : (c.startAttempt (c.connects k)).trace =
        c.trace ++ if (c.connects k).reconnect then [.retried (c.link + 1)] else [] :=
      congrArg Account.trace (account_startAttempt (c.connects k))
    rw [if_pos hours] at htrace
    simp only [proceed, hdelivered, hdown, haddress, ne_eq, not_true_eq_false, if_false,
      Bool.true_eq_false]
    show .retried (c.link + 1) ∈ (c.startAttempt (c.connects k)).trace
    rw [htrace]
    exact List.mem_append_right _ (List.mem_singleton.mpr rfl)
  unfold woken
  cases hw : (c.connects k).waiting with
  | leaving d l =>
    have hsame : d = c.disconnects :=
      Option.some.inj ((congrArg Waiting.disconnects? hw).symm.trans hd)
    rw [hl, hsame]
    exact hproceed
  | delivered d n =>
    have hsame : d = c.disconnects :=
      Option.some.inj ((congrArg Waiting.disconnects? hw).symm.trans hd)
    dsimp only
    rw [hdelivered, hsame]
    exact hproceed
  | _ => cases (congrArg Waiting.disconnects? hw).symm.trans hd

theorem Due.begins (h : Due a cause c) (hc : c.Undisturbed) (hcalling : Calling c.pursuit)
    (hdelivered : c.disconnectedDelivered = none) :
    .retried (a + 1) ∈ (run step c c.loopGoesOn).trace := by
  obtain ⟨hdown, hsome⟩ := h.pursued hc
  obtain ⟨n, k, hloop, hzero⟩ := hcalling
  obtain ⟨hours, -, ⟨-, -, -, hd⟩ | ⟨hpos, -⟩⟩ := hc.honest.called n k hloop
  · have hevents : c.loopGoesOn = [.woken k] := by
      rw [loopGoesOn, show c.loop = some ⟨n, some k⟩ from hloop]
    rw [hevents, ← h.link]
    exact begins_woken (hd h.stopped) hours hdown (hc.honest.address hsome) (h.not_leaving hc)
      hdelivered
  · exact absurd hzero (Nat.pos_iff_ne_zero.mp hpos)

/-! ### Its word is kept -/

theorem shown_run (h : c.Lives) (es : List Event) : c.trace ⊆ (run step c es).trace := by
  induction es generalizing c with
  | nil => exact fun _ => id
  | cons e es ih => exact fun _ hin => ih (h.step e) (shown_step h.sound e hin)

/-- An attempt that is due begins, once all that the loop may wait for has come. -/
theorem retried_carryOn (hc : c.Undisturbed) (h : Due a cause c) :
    .retried (a + 1) ∈ c.carryOn.trace := by
  obtain ⟨hc₁, hpoised⟩ := poised_returns hc h
  have hc₂ := hc₁.step (e := .slept) rfl
  rw [carryOn]
  rcases poised_slept hc₁ hpoised with ⟨hdue, n, k, hloop, hzero⟩ | hbegun
  · obtain ⟨hc₃, hsteady, hdelivered⟩ := due_delivered hc₂ hdue
    refine (hdue.steady hsteady).begins hc₃ ⟨n, k, ?_, ?_⟩ hdelivered
    · rw [hsteady.pursuit]
      exact hloop
    · rw [hsteady.pursuit]
      exact hzero
  · obtain ⟨hlives, -⟩ := hc₂
    have hlives' : ∀ es, (run step ((run step c c.loopReturns).step .slept) es).Lives := fun es =>
      run_invariant (fun _ e hd => hd.step e) es hlives
    exact shown_run (hlives' _) _ (shown_run hlives _ hbegun)

/-- **The loop keeps its word**: after `disconnected` told that the client reconnects, and until
somebody leaves, the attempt of the loop that comes next has begun, or begins as soon as all that
the loop may wait for has come. -/
theorem keeps_word (reconnect : Option ReconnectOptions) (addressable : Bool) (as bs : List Event)
    (cause : ClientError)
    (hes : Along step (fun c e => c.undisturbed e = true) (new reconnect addressable) (as ++ bs))
    (hstopped : (run step (new reconnect addressable) as).stopped = false)
    (htold : .queued (.disconnected (run step (new reconnect addressable) as).link (some cause)
      true) ∈ (run step (new reconnect addressable) as).trace)
    (hbs : ∀ e ∈ bs, e.isDisconnect = false) :
    .retried ((run step (new reconnect addressable) as).link + 1) ∈
        (run step (new reconnect addressable) (as ++ bs)).trace ∨
      (run step (new reconnect addressable) (as ++ bs)).link =
          (run step (new reconnect addressable) as).link ∧
        .retried ((run step (new reconnect addressable) as).link + 1) ∈
          (run step (new reconnect addressable) (as ++ bs)).carryOn.trace := by
  obtain ⟨has, hbs'⟩ := along_append.mp hes
  have hc := undisturbed_run has
  rw [run_append]
  generalize run step (new reconnect addressable) as = c at hstopped htold hbs' hc ⊢
  have halong : Along step (fun c e => c.undisturbed e = true ∧ e.isDisconnect = false) c bs := by
    apply along_iff_forall_prefix.mpr
    intro cs e ds heq
    have he := along_iff_forall_prefix.mp hbs' cs e ds heq
    exact ⟨he, hbs e (by simp [heq])⟩
  have hkept : ∀ (d : Lifecycle) (e : Event), d.Undisturbed ∧ Followed c.link cause d →
      d.undisturbed e = true ∧ e.isDisconnect = false →
        (d.step e).Undisturbed ∧ Followed c.link cause (d.step e) := by
    rintro d e ⟨hd, hfollowed⟩ ⟨he, hleaves⟩
    exact ⟨hd.step he, hfollowed.step hd he hleaves⟩
  obtain ⟨hd, hdue | hbegun⟩ := run_invariant_along hkept
    ⟨hc, Or.inl ⟨rfl, hstopped, htold⟩⟩ halong
  · exact Or.inr ⟨hdue.link, retried_carryOn hd hdue⟩
  · exact Or.inl hbegun

theorem keeps_word_droppedRun :
    (Along step (fun c e => c.undisturbed e = true) (new (some alwaysRetries) true)
        (droppedRun ++ [.deliver]) ∧
      (run step (new (some alwaysRetries) true) droppedRun).stopped = false ∧
      .queued (.disconnected 1 (some (.made .closed 5)) true) ∈
        (run step (new (some alwaysRetries) true) droppedRun).trace ∧
      ∀ e ∈ [Event.deliver], e.isDisconnect = false) ∧
    (.retried 2 ∈ (run step (new (some alwaysRetries) true) (droppedRun ++ [.deliver])).trace ∨
      (run step (new (some alwaysRetries) true) (droppedRun ++ [.deliver])).link = 1 ∧
        .retried 2 ∈
          (run step (new (some alwaysRetries) true) (droppedRun ++ [.deliver])).carryOn.trace) := by
  have hundisturbed : Along step (fun c e => c.undisturbed e = true)
      (new (some alwaysRetries) true) (droppedRun ++ [.deliver]) := by decide
  have hstopped : (run step (new (some alwaysRetries) true) droppedRun).stopped = false := by decide
  have htold : .queued (.disconnected 1 (some (.made .closed 5)) true) ∈
      (run step (new (some alwaysRetries) true) droppedRun).trace := by decide
  have hstays : ∀ e ∈ [Event.deliver], e.isDisconnect = false := by decide
  exact ⟨⟨hundisturbed, hstopped, htold, hstays⟩,
    keeps_word _ true droppedRun [.deliver] _ hundisturbed hstopped htold hstays⟩

end Lifecycle

end Teamspeak.Client
