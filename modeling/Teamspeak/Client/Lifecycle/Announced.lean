import Teamspeak.Client.Lifecycle.Answers
import Teamspeak.Client.Lifecycle.Attempts
import Teamspeak.Client.Lifecycle.Loop

/-!
# What `disconnected` tells of the reconnect loop

`disconnected` says whether the client will reconnect.  It is asked for before the loop acts, at
the drop of a session or the failure of an attempt, and the loop, which may be waiting for its
own `connect()`, comes to act on it later.  `Honest` is what holds in between.

* `tells_truly`: **in every run in which nobody but the loop connects while it is there, the
  policy is asked once of every failure, what it answers is what `disconnected` tells, and what
  the loop does**.
-/

namespace Teamspeak.Client

namespace Lifecycle

variable {c c' : Lifecycle} {p q : Pursuit} {t l : List Shown} {D : Prop}

/-- `disconnected` told of link `a` that it ended by `cause`, and whether the client
reconnects. -/
def Told (t : List Shown) (a : LinkID) (cause : ClientError) (w : Bool) : Prop :=
  .queued (.disconnected a (some cause) w) ∈ t

/-- Attempt `n` after `cause` is answered with `w`, without asking. -/
def Known (p : Pursuit) (cause : ClientError) (n : Nat) (w : Bool) : Prop :=
  w = false ∧ (p.reconnect = none ∨ ∃ options, p.reconnect = some options ∧
      options.policy.maxAttempts ≠ 0 ∧ options.policy.maxAttempts < n) ∨
    (∃ options, p.reconnect = some options ∧
      (options.policy.maxAttempts = 0 ∨ n ≤ options.policy.maxAttempts)) ∧
        p.retryAnswer = some ⟨cause, n, w⟩

/-- The policy is asked once of every end: `disconnected` tells at once what it answered. -/
def Telling (reconnect : Option ReconnectOptions) (t : List Shown) : Prop :=
  ∀ pre err n post, t = pre ++ .asked err n :: post → ∃ options a post',
    reconnect = some options ∧ post = .queued (.disconnected a (some err)
      ((options.shouldRetry err n pre.length).getD false)) :: post'

/-- What holds of the loop between steps, `D` being whether the client is disconnected. -/
structure Honest (p : Pursuit) (t : List Shown) (D : Prop) : Prop where
  idle : p.loop = none → p.loopAttempt = 0
  later : ∀ a cause w, Told t a cause w → a ≤ p.link ∧ (a = p.link → D) ∧ cause.isPlain = true
  up : ¬D → p.stopped = false ∧ p.addressable = true
  ended : D → p.stopped = false → 0 < p.link → ∃ cause w, Told t p.link cause w
  asleep : ∀ n, p.loop = some ⟨n, none⟩ → D ∧ ∃ cause, Told t p.link cause true
  called : ∀ n k, p.loop = some ⟨n, some k⟩ → (p.call k).2 = true ∧ p.loopAttempt = n ∧
    (p.callLink k = 0 ∧ D ∧ (∃ cause, Told t p.link cause true) ∧
        (p.stopped = false → p.since k = some p.disconnects) ∨
      0 < p.callLink k ∧ p.callLink k = p.link)
  own : ∀ k, (p.call k).2 = true → p.since k ≠ none → ∃ n, p.loop = some ⟨n, some k⟩
  unbegun : ∀ k, p.since k ≠ none → p.callLink k = 0
  address : p.loop ≠ none → p.addressable = true
  /-- What was told is what the loop will find. -/
  reported : D → p.stopped = false → ∀ cause w, Told t p.link cause w →
    (w = true → p.loop ≠ none) ∧ ∀ n k, p.loop = some ⟨n, some k⟩ → 0 < p.callLink k →
      (.attemptFailed p.link ∈ t ∨ p.lastDrop = some cause) ∧ Known p cause (n + 1) w
  announced : ∀ a, .retried a ∈ t → ∃ b cause, a = b + 1 ∧ Told t b cause true
  asked : Telling p.reconnect t

/-! ### What is shown -/

theorem Told.append {a : LinkID} {cause : ClientError} {w : Bool} (h : Told t a cause w) :
    Told (t ++ l) a cause w := List.mem_append_left _ h

theorem told_append_aside (hl : ∀ shown ∈ l, shown.isAside = true) {a : LinkID}
    {cause : ClientError} {w : Bool} : Told (t ++ l) a cause w ↔ Told t a cause w := by
  refine ⟨fun h => ?_, Told.append⟩
  rcases List.mem_append.mp h with hin | hin
  · exact hin
  · cases hl _ hin

theorem retried_append_aside (hl : ∀ shown ∈ l, shown.isAside = true) {a : LinkID} :
    .retried a ∈ t ++ l ↔ .retried a ∈ t := by
  refine ⟨fun h => ?_, List.mem_append_left _⟩
  rcases List.mem_append.mp h with hin | hin
  · exact hin
  · cases hl _ hin

/-- Nothing more is asked. -/
theorem Telling.append {reconnect : Option ReconnectOptions} (h : Telling reconnect t)
    (hl : ∀ err n, .asked err n ∉ l) : Telling reconnect (t ++ l) := by
  intro pre err n post heq
  rcases Log.place_append heq with ⟨mid, hmid, rfl⟩ | ⟨mid, hmid, -⟩
  · obtain ⟨options, a, post', ho, rfl⟩ := h pre err n mid hmid
    exact ⟨options, a, post' ++ l, ho, rfl⟩
  · exact absurd (hmid ▸ List.mem_append_right _ List.mem_cons_self) (hl err n)

theorem Telling.aside {reconnect : Option ReconnectOptions} (h : Telling reconnect t)
    (hl : ∀ shown ∈ l, shown.isAside = true) : Telling reconnect (t ++ l) :=
  h.append fun err n hin => by cases hl _ hin

/-- What is answered is told at once. -/
theorem Telling.answered (h : Telling c.reconnect c.trace) {err : ClientError} {n : Nat} {w : Bool}
    (hanswered : Answered c err n c' w) (a : LinkID) :
    Telling c.reconnect (c'.trace ++ [.queued (.disconnected a (some err) w)]) := by
  have htold : ∀ w, Telling c.reconnect (c.trace ++ [.queued (.disconnected a (some err) w)]) := by
    intro w
    apply h.append
    intro err' n' hin
    cases List.mem_singleton.mp hin
  cases hanswered with
  | barred => exact htold false
  | known => exact htold w
  | asks options ho =>
    have htrace : ∀ w,
        (c.trace ++ [.asked err n]) ++ [Shown.queued (.disconnected a (some err) w)] =
          c.trace ++ [.asked err n, .queued (.disconnected a (some err) w)] := by simp
    show Telling c.reconnect ((c.trace ++ [.asked err n]) ++ _)
    rw [htrace]
    intro pre err' n' post heq
    rcases Log.place_append heq with ⟨mid, hmid, rfl⟩ | ⟨mid, hmid, rfl⟩
    · obtain ⟨options', a', post', ho', rfl⟩ := h pre err' n' mid hmid
      exact ⟨options', a', post' ++ _, ho', rfl⟩
    · cases mid with
      | nil =>
        rw [List.nil_append, List.cons.injEq, Shown.asked.injEq] at hmid
        obtain ⟨⟨rfl, rfl⟩, rfl⟩ := hmid
        exact ⟨options, a, [], ho, by rw [List.append_nil]⟩
      | cons shown mid =>
        rw [List.cons_append, List.cons.injEq, List.singleton_eq_append_iff] at hmid
        rcases hmid.2 with ⟨-, heq'⟩ | ⟨-, heq'⟩ <;> cases heq'

/-! ### What is known -/

/-- An answer is known once it is given. -/
theorem Answered.known' {err : ClientError} {n : Nat} {w : Bool} (h : Answered c err n c' w)
    (hs : c.stopped = false) : Known c'.pursuit err n w := by
  cases h with
  | barred hwhy =>
    rcases hwhy with ho | hstopped | hbeyond
    · exact Or.inl ⟨rfl, Or.inl ho⟩
    · cases hs.symm.trans hstopped
    · exact Or.inl ⟨rfl, Or.inr hbeyond⟩
  | known _ options ho hs hn hsome => exact Or.inr ⟨⟨options, ho, hn⟩, hsome⟩
  | asks options ho hs hn => exact Or.inr ⟨⟨options, ho, hn⟩, rfl⟩

/-- The loop acts on what is known. -/
theorem Rounds.of_known {err : ClientError} {n : Nat} {w : Bool} (h : Rounds c err n c')
    (hs : c.stopped = false) (hknown : Known c.pursuit err n w) :
    c' = if w then { c with loop := some ⟨n, none⟩ } else c.endLoop := by
  obtain ⟨d, w', hanswered, rfl⟩ := h
  have hwithin : ∀ options, c.reconnect = some options →
      (options.policy.maxAttempts = 0 ∨ n ≤ options.policy.maxAttempts) →
        c.retryAnswer = some ⟨err, n, w⟩ := by
    intro options ho hn
    rcases hknown with ⟨-, hnone | ⟨options', ho', hmax, hbeyond⟩⟩ | ⟨-, hsome⟩
    · cases ho.symm.trans hnone
    · cases ho.symm.trans ho'
      rcases hn with hzero | hle
      · exact absurd hzero hmax
      · exact absurd hbeyond (not_lt.mpr hle)
    · exact hsome
  cases hanswered with
  | barred hwhy =>
    have hw : w = false := by
      rcases hknown with ⟨hw, -⟩ | ⟨⟨options, ho, hn⟩, -⟩
      · exact hw
      · rcases hwhy with hnone | hstopped | ⟨options', ho', hmax, hbeyond⟩
        · cases ho.symm.trans hnone
        · cases hs.symm.trans hstopped
        · cases ho.symm.trans ho'
          rcases hn with hzero | hle
          · exact absurd hzero hmax
          · exact absurd hbeyond (not_lt.mpr hle)
    rw [hw]
  | known _ options ho _ hn hsome =>
    have hsame := hsome.symm.trans (hwithin options ho hn)
    rw [Option.some.injEq, RetryAnswer.mk.injEq] at hsame
    rw [hsame.2.2]
  | asks options ho _ hn hnew => exact absurd (hwithin options ho hn) (hnew w)

/-- What is asked changes nothing else. -/
theorem Answered.shown {err : ClientError} {n : Nat} {w : Bool} (h : Answered c err n c' w) :
    ∃ answer l, c'.pursuit = { c.pursuit with retryAnswer := answer } ∧ c'.trace = c.trace ++ l ∧
      ∀ shown ∈ l, shown = .asked err n := by
  cases h with
  | barred => exact ⟨_, [], rfl, (List.append_nil _).symm, fun _ hin => absurd hin List.not_mem_nil⟩
  | known => exact ⟨_, [], rfl, (List.append_nil _).symm, fun _ hin => absurd hin List.not_mem_nil⟩
  | asks => exact ⟨_, _, rfl, rfl, fun _ hin => List.mem_singleton.mp hin⟩

/-! ### What keeps it -/

namespace Honest

theorem aside (h : Honest p t D) (hl : ∀ shown ∈ l, shown.isAside = true) :
    Honest p (t ++ l) D where
  idle := h.idle
  later a cause w htold := h.later a cause w ((told_append_aside hl).mp htold)
  up := h.up
  ended hD hs hpos := by
    obtain ⟨cause, w, htold⟩ := h.ended hD hs hpos
    exact ⟨cause, w, htold.append⟩
  asleep n hloop := by
    obtain ⟨hD, cause, htold⟩ := h.asleep n hloop
    exact ⟨hD, cause, htold.append⟩
  called n k hloop := by
    obtain ⟨hours, hn, hcalled⟩ := h.called n k hloop
    refine ⟨hours, hn, hcalled.imp_left ?_⟩
    rintro ⟨hzero, hD, ⟨cause, htold⟩, hsince⟩
    exact ⟨hzero, hD, ⟨cause, htold.append⟩, hsince⟩
  own := h.own
  unbegun := h.unbegun
  address := h.address
  reported hD hs cause w htold := by
    obtain ⟨hw, hloop⟩ := h.reported hD hs cause w ((told_append_aside hl).mp htold)
    refine ⟨hw, fun n k hk hpos => ?_⟩
    obtain ⟨hwhy, hknown⟩ := hloop n k hk hpos
    exact ⟨hwhy.imp_left (List.mem_append_left _), hknown⟩
  announced a hin := by
    obtain ⟨b, cause, heq, htold⟩ := h.announced a ((retried_append_aside hl).mp hin)
    exact ⟨b, cause, heq, htold.append⟩
  asked := h.asked.aside hl

theorem steady (h : Honest c.pursuit c.trace (c.status = .disconnected)) (hsteady : Steady c c') :
    Honest c'.pursuit c'.trace (c'.status = .disconnected) := by
  obtain ⟨l, htrace, haside⟩ := hsteady.aside
  rw [hsteady.pursuit, htrace, propext hsteady.down]
  exact h.aside haside

/-- An attempt has failed, or a session has dropped, by `cause`; it is told and, if it is, the
loop begins. -/
theorem ends (h : Honest p t D) (hD : ¬D) {cause : ClientError} {w : Bool}
    (hplain : cause.isPlain = true)
    (hsame : q = { p with
      lastDrop := q.lastDrop, retryAnswer := q.retryAnswer, loop := q.loop,
      loopAttempt := q.loopAttempt })
    (hl : ∀ shown ∈ l, shown.isAside = true ∨ ∃ err n, shown = .asked err n)
    (hloop : q.loop = p.loop ∧ q.loopAttempt = p.loopAttempt ∨
      p.loop = none ∧ q.loopAttempt = 0 ∧ (q.loop = none ∨ w = true ∧ q.loop = some ⟨1, none⟩))
    (hw : w = true → q.loop ≠ none)
    (hwhy : ∀ n k, q.loop = some ⟨n, some k⟩ →
      (.attemptFailed p.link ∈ t ++ l ∨ q.lastDrop = some cause) ∧ Known q cause (n + 1) w)
    (hasked : Telling p.reconnect (t ++ l ++ [.queued (.disconnected p.link (some cause) w)])) :
    Honest q (t ++ l ++ [.queued (.disconnected p.link (some cause) w)]) True := by
  obtain ⟨hstopped, haddress⟩ := h.up hD
  have htold : ∀ a cause' w',
      Told (t ++ l ++ [.queued (.disconnected p.link (some cause) w)]) a cause' w' →
        Told t a cause' w' ∨ a = p.link ∧ cause' = cause ∧ w' = w := by
    intro a cause' w' hin
    rcases List.mem_append.mp hin with hin | hin
    · rcases List.mem_append.mp hin with hin | hin
      · exact Or.inl hin
      · rcases hl _ hin with haside | ⟨err, n, heq⟩
        · cases haside
        · cases heq
    · have heq := List.mem_singleton.mp hin
      cases heq
      exact Or.inr ⟨rfl, rfl, rfl⟩
  have hnew : Told (t ++ l ++ [.queued (.disconnected p.link (some cause) w)]) p.link cause w :=
    List.mem_append_right _ (List.mem_singleton.mpr rfl)
  -- Of this link nothing was told before.
  have honly : ∀ cause' w',
      Told (t ++ l ++ [.queued (.disconnected p.link (some cause) w)]) p.link cause' w' →
        cause' = cause ∧ w' = w := by
    intro cause' w' hin
    rcases htold _ _ _ hin with hold | ⟨-, heq⟩
    · exact absurd ((h.later _ _ _ hold).2.1 rfl) hD
    · exact heq
  have hlink : q.link = p.link := by rw [hsame]
  have hreconnect : q.reconnect = p.reconnect := by rw [hsame]
  have hcall : q.call = p.call := by rw [hsame]
  have hcallLink : q.callLink = p.callLink := by rw [hsame]
  have hsince : q.since = p.since := by rw [hsame]
  have haddressable : q.addressable = p.addressable := by rw [hsame]
  refine ⟨?_, ?_, ?_, ?_, ?_, ?_, ?_, ?_, ?_, ?_, ?_, ?_⟩
  · intro hnone
    rcases hloop with ⟨heq, hn⟩ | ⟨-, hn, -⟩
    · exact hn.trans (h.idle (heq.symm.trans hnone))
    · exact hn
  · intro a cause' w' hin
    rw [hlink]
    rcases htold a cause' w' hin with hold | ⟨heq, rfl, -⟩
    · obtain ⟨hle, -, hp⟩ := h.later a cause' w' hold
      exact ⟨hle, fun _ => trivial, hp⟩
    · exact ⟨Nat.le_of_eq heq, fun _ => trivial, hplain⟩
  · exact fun hnot => absurd trivial hnot
  · exact fun _ _ _ => ⟨cause, w, hlink ▸ hnew⟩
  · intro n hn
    refine ⟨trivial, cause, ?_⟩
    rcases hloop with ⟨heq, -⟩ | ⟨-, -, hnone | ⟨rfl, -⟩⟩
    · exact absurd (h.asleep n (heq.symm.trans hn)).1 hD
    · cases hnone.symm.trans hn
    · rwa [hlink]
  · intro n k hk
    rcases hloop with ⟨heq, hn⟩ | ⟨-, -, hnone | ⟨-, hone⟩⟩
    · obtain ⟨hours, hn', hcalled⟩ := h.called n k (heq.symm.trans hk)
      rw [hcall, hcallLink, hlink]
      refine ⟨hours, hn.trans hn', Or.inr ?_⟩
      rcases hcalled with ⟨-, hdown, -⟩ | hbegun
      · exact absurd hdown hD
      · exact hbegun
    · cases hnone.symm.trans hk
    · cases hone.symm.trans hk
  · intro k hours hwaits
    rw [hcall] at hours
    rw [hsince] at hwaits
    obtain ⟨n, hn⟩ := h.own k hours hwaits
    rcases hloop with ⟨heq, -⟩ | ⟨hnone, -⟩
    · exact ⟨n, heq.trans hn⟩
    · cases hnone.symm.trans hn
  · rw [hsince, hcallLink]
    exact h.unbegun
  · intro _
    rw [haddressable]
    exact haddress
  · intro _ _ cause' w' hin
    rw [hlink] at hin ⊢
    obtain ⟨rfl, rfl⟩ := honly cause' w' hin
    refine ⟨hw, fun n k hk _ => ?_⟩
    obtain ⟨hfailed, hknown⟩ := hwhy n k hk
    exact ⟨hfailed.imp_left (List.mem_append_left _), hknown⟩
  · intro a hin
    have hold : .retried a ∈ t := by
      rcases List.mem_append.mp hin with hin | hin
      · rcases List.mem_append.mp hin with hin | hin
        · exact hin
        · rcases hl _ hin with haside | ⟨err, n, heq⟩
          · cases haside
          · cases heq
      · cases List.mem_singleton.mp hin
    obtain ⟨b, cause', heq, hbtold⟩ := h.announced a hold
    exact ⟨b, cause', heq, hbtold.append.append⟩
  · rw [hreconnect]
    exact hasked

/-- What is asked on the way from `t` to what is told. -/
theorem ends_answered (h : Honest p t D) (hD : ¬D) {d e : Lifecycle} {cause : ClientError}
    {w : Bool} (hplain : cause.isPlain = true)
    (hd : d.pursuit = { p with lastDrop := d.lastDrop })
    (htrace : d.trace = t ++ l) (haside : ∀ shown ∈ l, shown.isAside = true)
    (hanswered : Answered d cause (p.loopAttempt + 1) e w)
    (hq : q = { e.pursuit with loop := q.loop, loopAttempt := q.loopAttempt })
    (hloop : q.loop = p.loop ∧ q.loopAttempt = p.loopAttempt ∨
      p.loop = none ∧ q.loopAttempt = 0 ∧ (q.loop = none ∨ w = true ∧ q.loop = some ⟨1, none⟩))
    (hw : w = true → q.loop ≠ none)
    (hwhy : .attemptFailed p.link ∈ d.trace ∨ d.lastDrop = some cause) :
    Honest q (e.trace ++ [.queued (.disconnected p.link (some cause) w)]) True := by
  obtain ⟨hstopped, -⟩ := h.up hD
  obtain ⟨answer, asked, hpursuit, hshown, hasked⟩ := hanswered.shown
  have hreconnect : d.reconnect = p.reconnect := congrArg Pursuit.reconnect hd
  have hdstopped : d.stopped = false := (congrArg Pursuit.stopped hd).trans hstopped
  have hdrop : q.lastDrop = d.lastDrop := by
    rw [hq, hpursuit]
    rfl
  have htelling : Telling d.reconnect d.trace := by
    rw [hreconnect, htrace]
    exact h.asked.aside haside
  have htold := htelling.answered hanswered p.link
  have heq : e.trace = t ++ (l ++ asked) := by rw [hshown, htrace, List.append_assoc]
  have hknown := hanswered.known' hdstopped
  have hqknown : Known q cause (p.loopAttempt + 1) w := by
    rw [hq]
    exact hknown
  rw [hreconnect, heq] at htold
  rw [heq]
  refine h.ends hD hplain ?_ ?_ hloop hw ?_ htold
  · rw [hq, hpursuit, hd]
  · intro shown hin
    rcases List.mem_append.mp hin with hin | hin
    · exact Or.inl (haside shown hin)
    · exact Or.inr ⟨_, _, hasked shown hin⟩
  · intro n k hk
    rcases hloop with ⟨hsame, hn⟩ | ⟨-, -, hnone | ⟨-, hone⟩⟩
    · -- The loop makes attempt `n`, and what was asked of is the next one.
      obtain ⟨-, hn', -⟩ := h.called n k (hsame.symm.trans hk)
      refine ⟨?_, hn' ▸ hqknown⟩
      rw [← List.append_assoc, ← htrace, hdrop]
      exact hwhy.imp_left (List.mem_append_left _)
    · cases hnone.symm.trans hk
    · cases hone.symm.trans hk

theorem failed (h : Honest c.pursuit c.trace (c.status = .disconnected)) {cause : ClientError}
    {w : Bool} (hfailed : Failed True c c' cause w) :
    Honest c'.pursuit c'.trace (c'.status = .disconnected) := by
  obtain ⟨d, e, ⟨l, htrace, haside⟩, hattempt, hpursuit, hanswered, htold, hsame⟩ := hfailed.told
  have hup : ¬c.status = .disconnected := by simp [hfailed.status]
  have hplain := hfailed.plain trivial
  have hdown : (c'.status = .disconnected) = True := eq_true hfailed.down
  have hd : d.pursuit = { c.pursuit with lastDrop := d.lastDrop } := by
    have hdrop : d.lastDrop = c.lastDrop := congrArg Pursuit.lastDrop hpursuit
    rw [hpursuit, hdrop]
    rfl
  rw [hdown, htold]
  split at hanswered
  · rename_i hloop
    have hsome : c'.loop = c.loop ∧ c'.loopAttempt = c.loopAttempt := by
      obtain ⟨answer, -, heq, -⟩ := hanswered.shown
      have hall := hsame.trans heq
      rw [hpursuit] at hall
      exact ⟨congrArg Pursuit.loop hall, congrArg Pursuit.loopAttempt hall⟩
    refine h.ends_answered hup hplain hd htrace haside hanswered ?_ (Or.inl hsome) (fun _ => ?_)
      (Or.inl hattempt)
    · rw [← hsame]
    · show c'.loop ≠ none
      rw [hsome.1]
      exact Option.isSome_iff_ne_none.mp hloop
  · rename_i hloop
    obtain ⟨rfl, rfl⟩ := hanswered
    have hnone : c.pursuit.loop = none := Option.not_isSome_iff_eq_none.mp hloop
    have hall := hsame.trans hpursuit
    rw [htrace, hall]
    refine h.ends hup hplain rfl (fun shown hin => Or.inl (haside shown hin)) (Or.inl ⟨rfl, rfl⟩)
      (fun hw => by cases hw) (fun n k hk => by cases hnone.symm.trans hk) ?_
    refine (h.asked.aside haside).append fun err n hin => ?_
    cases List.mem_singleton.mp hin

theorem dropped (h : Honest c.pursuit c.trace (c.status = .disconnected)) {cause : ClientError}
    {w : Bool} (hdropped : Dropped True c c' cause w) :
    Honest c'.pursuit c'.trace (c'.status = .disconnected) := by
  obtain ⟨d, e, f, ⟨l, htrace, haside⟩, hpursuit, hanswered, htold, hsame, hends⟩ := hdropped.told
  have hup : ¬c.status = .disconnected := by simp [hdropped.status]
  have hplain := hdropped.plain trivial
  have hdown : (c'.status = .disconnected) = True := eq_true hdropped.down
  have hdrop : d.lastDrop = some cause := congrArg Pursuit.lastDrop hpursuit
  have hd : d.pursuit = { c.pursuit with lastDrop := d.lastDrop } := by rw [hpursuit, hdrop]
  have hdstopped : d.stopped = false :=
    (congrArg Pursuit.stopped hpursuit).trans (h.up hup).1
  have hknown := hanswered.known' hdstopped
  obtain ⟨answer, asked, heq, -⟩ := hanswered.shown
  have hf : f.pursuit = { c.pursuit with lastDrop := some cause, retryAnswer := answer } := by
    rw [hsame, heq, hpursuit]
  have hfloop : f.loop = c.loop := congrArg Pursuit.loop hf
  have hfattempt : f.loopAttempt = c.loopAttempt := congrArg Pursuit.loopAttempt hf
  have hzero : c.loop = none → c.loopAttempt = 0 := h.idle
  rw [hdown]
  rcases hends with ⟨hc', hwhy⟩ | ⟨hnone, hrounds⟩
  · rw [hc', htold]
    refine h.ends_answered hup hplain hd htrace haside hanswered (by rw [← hsame])
      (Or.inl ⟨hfloop, hfattempt⟩) (fun hw => ?_) (Or.inr hdrop)
    rcases hwhy with hloop | ho | hstopped
    · show f.loop ≠ none
      rw [hfloop]
      exact Option.isSome_iff_ne_none.mp hloop
    · rcases hknown with ⟨hnot, -⟩ | ⟨⟨options, hsome, -⟩, -⟩
      · cases hw.symm.trans hnot
      · rw [heq, hpursuit] at hsome
        cases ho.symm.trans hsome
    · cases (h.up hup).1.symm.trans hstopped
  · have hfstopped : f.stopped = false :=
      (congrArg Pursuit.stopped hf).trans (h.up hup).1
    rw [hzero hnone, ← hsame] at hknown
    rw [hrounds.of_known hfstopped hknown]
    cases w with
    | true =>
      show Honest { f.pursuit with loop := some ⟨1, none⟩ } f.trace True
      rw [htold]
      refine h.ends_answered hup hplain hd htrace haside hanswered (by rw [← hsame])
        (Or.inr ⟨hnone, ?_, Or.inr ⟨rfl, rfl⟩⟩) (fun _ hloop => by cases hloop) (Or.inr hdrop)
      exact hfattempt.trans (hzero hnone)
    | false =>
      show Honest { f.pursuit with loop := none, loopAttempt := 0 } f.trace True
      rw [htold]
      exact h.ends_answered hup hplain hd htrace haside hanswered (by rw [← hsame])
        (Or.inr ⟨hnone, rfl, Or.inl rfl⟩) (fun hw => by cases hw) (Or.inr hdrop)

theorem pursues (h : Honest c.pursuit c.trace (c.status = .disconnected)) {r : Prop} (hr : r)
    (hpursues : Relation.ReflTransGen (Pursues r) c c') :
    Honest c'.pursuit c'.trace (c'.status = .disconnected) := by
  rw [eq_true hr] at hpursues
  induction hpursues with
  | refl => exact h
  | tail _ hnext ih =>
    cases hnext with
    | steady hsteady => exact ih.steady hsteady
    | failed cause w hfailed => exact ih.failed hfailed
    | dropped cause w hdropped => exact ih.dropped hdropped

/-! ### Calls, and the loop -/

/-- A call of the loop does not go on to its attempt, if at all, but for a `disconnect()`. -/
theorem waits (h : Honest p t D) {k : ConnectID}
    (hwhy : (p.call k).2 = true → p.stopped = false → D → p.addressable = true →
      p.since k ≠ some p.disconnects) : Honest (p.waits k none) t D where
  idle := h.idle
  later := h.later
  up := h.up
  ended := h.ended
  asleep := h.asleep
  called n j hj := by
    obtain ⟨hours, hn, hcalled⟩ := h.called n j hj
    refine ⟨hours, hn, hcalled.imp_left ?_⟩
    rintro ⟨hzero, hD, htold, hsince⟩
    refine ⟨hzero, hD, htold, fun hs => ?_⟩
    by_cases heq : j = k
    · subst heq
      have haddress := h.address fun hnone => by cases hj.symm.trans hnone
      exact absurd (hsince hs) (hwhy hours hs hD haddress)
    · exact (if_neg heq).trans (hsince hs)
  own j hours hwaits := by
    by_cases heq : j = k
    · exact absurd (if_pos heq) hwaits
    · exact h.own j hours ((if_neg heq).symm.trans_ne hwaits)
  unbegun j hwaits := by
    by_cases heq : j = k
    · exact absurd (if_pos heq) hwaits
    · exact h.unbegun j ((if_neg heq).symm.trans_ne hwaits)
  address := h.address
  reported := h.reported
  announced := h.announced
  asked := h.asked

theorem calls (h : Honest p t D) (hloop : p.loop = none) (k : ConnectID) (n : Nat)
    (since : Option Nat) : Honest ((p.calls k (n, false)).waits k since) t D where
  idle := h.idle
  later := h.later
  up := h.up
  ended := h.ended
  asleep := h.asleep
  called n j hj := by cases hloop.symm.trans hj
  own j hours hwaits := by
    by_cases heq : j = k
    · subst heq
      simp [Pursuit.waits, Pursuit.calls] at hours
    · simp only [Pursuit.waits, Pursuit.calls, if_neg heq] at hours hwaits
      exact h.own j hours hwaits
  unbegun j hwaits := by
    by_cases heq : j = k
    · exact if_pos heq
    · simp only [Pursuit.waits, Pursuit.calls, if_neg heq] at hwaits ⊢
      exact h.unbegun j hwaits
  address := h.address
  reported hD hs cause w htold :=
    ⟨(h.reported hD hs cause w htold).1, fun n j hj => by cases hloop.symm.trans hj⟩
  announced := h.announced
  asked := h.asked

theorem attempts (h : Honest p t D) {n : Nat} (hloop : p.loop = some ⟨n, none⟩) (k : ConnectID) :
    Honest ((({ p with loopAttempt := n, loop := some ⟨n, some k⟩ } : Pursuit).calls k
      (n, true)).waits k (some p.disconnects)) t D where
  idle hnone := by cases hnone
  later := h.later
  up := h.up
  ended := h.ended
  asleep m hm := by cases hm
  called m j hj := by
    have hsame : some (Loop.mk n (some k)) = some ⟨m, some j⟩ := hj
    rw [Option.some.injEq, Loop.mk.injEq, Option.some.injEq] at hsame
    obtain ⟨rfl, rfl⟩ := hsame
    obtain ⟨hD, htold⟩ := h.asleep n hloop
    simp only [Pursuit.waits, Pursuit.calls, if_true]
    exact ⟨trivial, trivial, Or.inl ⟨trivial, hD, htold, fun _ => trivial⟩⟩
  own j hours hwaits := by
    by_cases heq : j = k
    · exact ⟨n, by rw [heq]; rfl⟩
    · simp only [Pursuit.waits, Pursuit.calls, if_neg heq] at hours hwaits
      obtain ⟨m, hm⟩ := h.own j hours hwaits
      cases hloop.symm.trans hm
  unbegun j hwaits := by
    by_cases heq : j = k
    · exact if_pos heq
    · simp only [Pursuit.waits, Pursuit.calls, if_neg heq] at hwaits ⊢
      exact h.unbegun j hwaits
  address _ := h.address fun hnone => by cases hloop.symm.trans hnone
  reported hD hs cause w htold := by
    refine ⟨fun _ hnone => (by cases hnone), fun m j hj hpos => ?_⟩
    have hsame : some (Loop.mk n (some k)) = some ⟨m, some j⟩ := hj
    rw [Option.some.injEq, Loop.mk.injEq, Option.some.injEq] at hsame
    obtain ⟨rfl, rfl⟩ := hsame
    simp [Pursuit.waits, Pursuit.calls] at hpos
  announced := h.announced
  asked := h.asked

/-- An attempt begins, by the loop's call, or by a caller's while there is no loop. -/
theorem begins (h : Honest p t D) {k : ConnectID} (hk : p.since k ≠ none)
    (haddress : p.addressable = true) (hloop : (p.call k).2 = true ∨ p.loop = none) :
    Honest (p.begins k) (t ++ if (p.call k).2 then [.retried (p.link + 1)] else []) False := by
  have htold : ∀ a cause w,
      Told (t ++ if (p.call k).2 then [.retried (p.link + 1)] else []) a cause w →
        Told t a cause w := by
    intro a cause w hin
    rcases List.mem_append.mp hin with hin | hin
    · exact hin
    · split at hin
      · cases List.mem_singleton.mp hin
      · cases hin
  -- The loop, if it is there, makes this very call.
  have hours : ∀ l, p.loop = some l → ∃ n, l = ⟨n, some k⟩ ∧ (p.call k).2 = true := by
    intro l hl
    rcases hloop with hcall | hnone
    · obtain ⟨n, hn⟩ := h.own k hcall hk
      exact ⟨n, Option.some.inj (hl.symm.trans hn), hcall⟩
    · cases hnone.symm.trans hl
  refine ⟨h.idle, ?_, ?_, fun hfalse => hfalse.elim, ?_, ?_, ?_, ?_, h.address,
    fun hfalse => hfalse.elim, ?_, ?_⟩
  · intro a cause w hin
    obtain ⟨hle, -, hplain⟩ := h.later a cause w (htold a cause w hin)
    refine ⟨Nat.le_succ_of_le hle, fun heq => ?_, hplain⟩
    have heq' : a = p.link + 1 := heq
    exact absurd (le_trans (le_of_eq heq'.symm) hle) (Nat.not_succ_le_self p.link)
  · exact fun _ => ⟨rfl, haddress⟩
  · intro n hn
    obtain ⟨m, hm, -⟩ := hours _ hn
    cases hm
  · intro n j hj
    obtain ⟨m, hm, hcall⟩ := hours _ hj
    cases hm
    refine ⟨hcall, (h.called n k hj).2.1, Or.inr ?_⟩
    have hlink : (p.begins k).callLink k = p.link + 1 := if_pos rfl
    rw [hlink]
    exact ⟨Nat.succ_pos _, rfl⟩
  · intro j hcall hwaits
    by_cases heq : j = k
    · exact absurd (if_pos heq) hwaits
    · exact h.own j hcall ((if_neg heq).symm.trans_ne hwaits)
  · intro j hwaits
    by_cases heq : j = k
    · exact absurd (if_pos heq) hwaits
    · exact (if_neg heq).trans (h.unbegun j ((if_neg heq).symm.trans_ne hwaits))
  · intro a hin
    rcases List.mem_append.mp hin with hin | hin
    · obtain ⟨b, cause, heq, hbtold⟩ := h.announced a hin
      exact ⟨b, cause, heq, hbtold.append⟩
    · split at hin
      · rename_i hcall
        have ha : a = p.link + 1 := Shown.retried.inj (List.mem_singleton.mp hin)
        obtain ⟨n, hn⟩ := h.own k hcall hk
        rcases (h.called n k hn).2.2 with ⟨-, -, ⟨cause, hlink⟩, -⟩ | ⟨hpos, -⟩
        · exact ⟨p.link, cause, ha, hlink.append⟩
        · exact absurd (h.unbegun k hk) (Nat.pos_iff_ne_zero.mp hpos)
      · cases hin
  · refine h.asked.append fun err n hin => ?_
    split at hin
    · cases List.mem_singleton.mp hin
    · cases hin

theorem stops (h : Honest p t D) (n : Nat) :
    Honest { p with stopped := true, disconnects := n } t True where
  idle := h.idle
  later a cause w htold := by
    obtain ⟨hle, -, hplain⟩ := h.later a cause w htold
    exact ⟨hle, fun _ => trivial, hplain⟩
  up hnot := absurd trivial hnot
  ended _ hs := by cases hs
  asleep n hn := ⟨trivial, (h.asleep n hn).2⟩
  called n k hk := by
    obtain ⟨hours, hn, hcalled⟩ := h.called n k hk
    refine ⟨hours, hn, hcalled.imp_left ?_⟩
    rintro ⟨hzero, -, htold, -⟩
    exact ⟨hzero, trivial, htold, fun hs => by cases hs⟩
  own := h.own
  unbegun := h.unbegun
  address := h.address
  reported _ hs := by cases hs
  announced := h.announced
  asked := h.asked

/-- The loop ends where it has nothing to do: its call has returned, if it made one. -/
theorem endLoop (h : Honest p t D)
    (hcalls : ∀ k, (p.call k).2 = true → p.since k = none)
    (hwhy : D → p.stopped = false → ∀ cause, ¬Told t p.link cause true) :
    Honest { p with loop := none, loopAttempt := 0 } t D where
  idle _ := rfl
  later := h.later
  up := h.up
  ended := h.ended
  asleep n hn := by cases hn
  called n k hk := by cases hk
  own k hours hwaits := absurd (hcalls k hours) hwaits
  unbegun := h.unbegun
  address hloop := absurd rfl hloop
  reported hD hs cause w htold := by
    refine ⟨fun hw => ?_, fun n k hk => by cases hk⟩
    subst hw
    exact absurd htold (hwhy hD hs cause)
  announced := h.announced
  asked := h.asked

theorem sleeps (h : Honest p t D) (hD : D) (hloop : p.loop ≠ none) (n : Nat)
    (hcalls : ∀ k, (p.call k).2 = true → p.since k = none) {cause : ClientError}
    (htold : Told t p.link cause true) : Honest { p with loop := some ⟨n, none⟩ } t D where
  idle hnone := by cases hnone
  later := h.later
  up := h.up
  ended := h.ended
  asleep m hm := ⟨hD, cause, htold⟩
  called m k hk := by cases hk
  own k hours hwaits := absurd (hcalls k hours) hwaits
  unbegun := h.unbegun
  address _ := h.address hloop
  reported _ _ _ _ _ := ⟨fun _ hnone => (by cases hnone), fun m k hk => by cases hk⟩
  announced := h.announced
  asked := h.asked

theorem proceeds (h : Honest p c.trace (c.status = .disconnected)) {k : ConnectID}
    (hk : p.since k ≠ none) (hloop : (p.call k).2 = true ∨ p.loop = none)
    (hproceeds : Proceeds p k c c') :
    Honest c'.pursuit c'.trace (c'.status = .disconnected) := by
  cases hproceeds with
  | waits hpursuit htrace hs =>
    rw [hpursuit, htrace, hs]
    exact h
  | rejected hpursuit htrace hs hwhy =>
    rw [hpursuit, htrace, hs]
    refine h.waits fun hours hstopped hD haddress => ?_
    rcases hwhy with hd | hup | hnot
    · exact hd
    · exact absurd hD hup
    · cases hnot.symm.trans haddress
  | begins hd hdown haddress hpursuit htrace hs =>
    rw [hpursuit, htrace, hs]
    have hfalse : (ClientStatus.connecting = .disconnected) = False := by simp
    rw [hfalse]
    exact h.begins hk haddress hloop

end Honest

/-! ### What the loop finds when its call has returned -/

/-- The call of the loop has returned, and the client was not told to stop: what the loop finds is
what was told. -/
theorem Honest.resumes (h : Honest c.pursuit c.trace (c.status = .disconnected)) (hlives : c.Lives)
    (hcalls : c.account.Promised ∧ c.account.Called) {n : Nat} {k : ConnectID}
    {result : Except ClientError Unit} (hloop : c.loop = some ⟨n, some k⟩)
    (hdone : (c.connects k).waiting = .done result) (hstopped : c.stopped = false)
    (hup : ¬(result = .ok () ∧ c.status = .connected)) :
    c.status = .disconnected ∧ ∃ cause w, Told c.trace c.link cause w ∧
      Known c.pursuit cause (n + 1) w ∧ (result = .ok () → c.lastDrop = some cause) ∧
        ∀ e, result = .error e →
          e.isAlreadyConnected = false ∧ ∀ clock, e.asError clock = cause := by
  obtain ⟨hpromised, hcalled⟩ := hcalls
  have hsince : c.pursuit.since k = none := congrArg Waiting.disconnects? hdone
  obtain ⟨hpos, hlink⟩ : 0 < (c.connects k).link ∧ (c.connects k).link = c.link := by
    rcases (h.called n k hloop).2.2 with ⟨-, -, -, hwaits⟩ | hbegun
    · cases hsince.symm.trans (hwaits hstopped)
    · exact hbegun
  have hpos' : 0 < c.link := hlink ▸ hpos
  have hresult : (c.links c.link).promise = some result := by
    have hkept := hcalled.done k result hpos hdone
    rwa [show c.account.callLink k = c.link from hlink] at hkept
  have hconnecting : c.status ≠ .connecting := by
    intro hs
    cases (hpromised.connecting hs hpos').symm.trans hresult
  -- The client is disconnected, as its attempt has failed or its session has ended.
  have hdown : c.status = .disconnected := by
    cases hs : c.status with
    | disconnected => rfl
    | connecting => exact absurd hs hconnecting
    | connected =>
      cases result with
      | ok => exact absurd ⟨rfl, hs⟩ hup
      | error e =>
        have hfailed := (hpromised.rejected c.link e hpos' hresult).1
        exact absurd (started_of_connected hlives hs) (not_started_of_failed hlives hfailed)
  refine ⟨hdown, ?_⟩
  obtain ⟨cause, w, htold⟩ := h.ended hdown hstopped hpos'
  obtain ⟨-, hreported⟩ := h.reported hdown hstopped cause w htold
  obtain ⟨hwhy, hknown⟩ := hreported n k hloop hpos
  refine ⟨cause, w, htold, hknown, fun hok => ?_, fun e herror => ?_⟩
  · subst hok
    rcases hwhy with hfailed | hdrop
    · have hstarted := hpromised.resolved c.link hpos' hresult
      exact absurd hstarted (not_started_of_failed hlives hfailed)
    · exact hdrop
  · subst herror
    obtain ⟨-, cause', w', htold', hrejects⟩ := hpromised.rejected c.link e hpos' hresult
    obtain ⟨rfl, -⟩ := disconnected_unique hlives htold htold'
    have hplain : cause.isPlain = true := (h.later _ _ _ htold).2.2
    rcases hrejects with ⟨clock, heq⟩ | ⟨hnone, -⟩
    · rw [Option.some.inj heq] at hplain ⊢
      cases e with
      | value v => cases hplain
      | other m => exact ⟨rfl, fun _ => rfl⟩
      | made error m =>
        refine ⟨?_, fun _ => rfl⟩
        cases error with
        | alreadyConnected => cases hplain
        | _ => rfl
    · cases hnone

/-! ### Every run -/

/-- While the loop is there, only it connects; its call is not cut short before its attempt; and
what fails, fails by plain errors. -/
def undisturbed (c : Lifecycle) : Event → Bool
  | .connect _ _ => c.loop.isNone
  | .woken k =>
    (c.connects k).reconnect || (c.connects k).waiting.disconnects?.isNone || c.loop.isNone
  | .aborts k reason =>
    reason.isPlain && (!(c.connects k).reconnect || (c.connects k).waiting.disconnects?.isNone)
  | e => e.failsPlainly

theorem failsPlainly_of_undisturbed {e : Event} (h : c.undisturbed e = true) :
    e.failsPlainly = true := by
  cases e with
  | aborts k reason => exact (Bool.and_eq_true_iff.mp h).1
  | connect => rfl
  | woken => rfl
  | _ => exact h

/-- No call of the loop waits for its attempt but the one that the loop waits for. -/
theorem Honest.returned (h : Honest p t D) {n : Nat} {k : ConnectID}
    (hloop : p.loop = some ⟨n, some k⟩) (hk : p.since k = none) :
    ∀ j, (p.call j).2 = true → p.since j = none := by
  intro j hours
  by_contra hwaits
  obtain ⟨m, hm⟩ := h.own j hours hwaits
  rw [hloop, Option.some.injEq, Loop.mk.injEq, Option.some.injEq] at hm
  exact hwaits (hm.2 ▸ hk)

theorem Honest.advances (h : Honest c.pursuit c.trace (c.status = .disconnected)) (hlives : c.Lives)
    (hcalls : c.account.Promised ∧ c.account.Called) {e : Event} (he : c.undisturbed e = true)
    (hadvances : Advances c e c') :
    Honest c'.pursuit c'.trace (c'.status = .disconnected) := by
  cases hadvances with
  | other _ _ hpursues => exact h.pursues (failsPlainly_of_undisturbed he) hpursues
  | refused signal reason _ hpursuit htrace hs =>
    have hloop : c.pursuit.loop = none := Option.isNone_iff_eq_none.mp he
    have hmade := h.calls hloop c.nextConnect 1 none
    rw [Pursuit.waits_self (if_pos rfl)] at hmade
    rw [hpursuit, htrace, hs]
    exact hmade
  | connects signal _ hproceeds =>
    have hloop : c.pursuit.loop = none := Option.isNone_iff_eq_none.mp he
    refine (h.calls hloop c.nextConnect 1 (some c.disconnects)).proceeds (fun hnone => ?_)
      (Or.inr hloop) hproceeds
    cases (if_pos rfl : _ = some c.disconnects).symm.trans hnone
  | goesOn k _ hw hproceeds =>
    refine h.proceeds hw ?_ hproceeds
    rw [undisturbed, Bool.or_eq_true, Bool.or_eq_true, Option.isNone_iff_eq_none,
      Option.isNone_iff_eq_none] at he
    rcases he with (hours | hnone) | hloop
    · exact Or.inl hours
    · exact absurd hnone hw
    · exact Or.inr hloop
  | cut k reason _ hw hpursuit htrace hs =>
    rw [hpursuit, htrace, hs]
    refine h.waits fun hours => ?_
    rw [undisturbed, Bool.and_eq_true, Bool.or_eq_true, Option.isNone_iff_eq_none] at he
    rcases he.2 with hnot | hnone
    · rw [show (c.connects k).reconnect = true from hours] at hnot
      cases hnot
    · exact absurd hnone hw
  | stops aborted _ hpursuit haside hs =>
    obtain ⟨l, htrace, hl⟩ := haside
    rw [hpursuit, htrace, eq_true hs]
    exact (h.aside hl).stops _
  | gaveUp n hloop hwhy =>
    refine h.endLoop (fun k hours => ?_) fun hD hs => ?_
    · by_contra hwaits
      obtain ⟨m, hm⟩ := h.own k hours hwaits
      cases hloop.symm.trans hm
    · rcases hwhy with hstopped | hup
      · cases hs.symm.trans hstopped
      · exact absurd hD hup
  | attempts n _ hloop hstopped hdown hproceeds =>
    refine (h.attempts hloop c.nextConnect).proceeds (fun hnone => ?_)
      (Or.inl (congrArg Prod.snd (if_pos rfl : _ = (n, true)))) hproceeds
    cases (if_pos rfl : _ = some c.disconnects).symm.trans hnone
  | ended n k result hloop hdone hwhy =>
    have hsince : c.pursuit.since k = none := congrArg Waiting.disconnects? hdone
    refine h.endLoop (h.returned hloop hsince) fun hD hs => ?_
    have hup : ¬(result = .ok () ∧ c.status = .connected) := by
      rintro ⟨-, hconnected⟩
      cases hconnected.symm.trans hD
    obtain ⟨-, _, _, -, -, -, herror⟩ := h.resumes hlives hcalls hloop hdone hs hup
    rcases hwhy with hok | ⟨e, he, halready⟩
    · exact absurd hok hup
    · cases (herror e he).1.symm.trans halready
  | retries n k result err _ hloop hdone hwhy hrounds =>
    have hsince : c.pursuit.since k = none := congrArg Waiting.disconnects? hdone
    have hreturned := h.returned hloop hsince
    cases hs : c.stopped with
    | true =>
      rw [hrounds.of_stopped hs]
      exact h.endLoop hreturned fun _ hs' => by cases hs.symm.trans hs'
    | false =>
      have hup : ¬(result = .ok () ∧ c.status = .connected) := by
        rintro ⟨rfl, hconnected⟩
        rcases hwhy with ⟨-, hnot, -⟩ | ⟨e, he, -⟩
        · exact hnot hconnected
        · cases he
      obtain ⟨hD, cause, w, htold, hknown, hok, herror⟩ :=
        h.resumes hlives hcalls hloop hdone hs hup
      have heq : err = cause := by
        rcases hwhy with ⟨hres, -, rfl⟩ | ⟨e, he, -, rfl⟩
        · rw [hok hres]
          rfl
        · exact (herror e he).2 c.clock
      rw [heq] at hrounds
      rw [hrounds.of_known hs hknown]
      cases w with
      | true =>
        refine h.sleeps hD (fun hnone => ?_) (n + 1) hreturned htold
        cases hloop.symm.trans hnone
      | false =>
        refine h.endLoop hreturned fun _ _ cause' htold' => ?_
        cases (disconnected_unique hlives htold htold').2

theorem honest_new (reconnect : Option ReconnectOptions) (addressable : Bool) :
    Honest (new reconnect addressable).pursuit (new reconnect addressable).trace True where
  idle _ := rfl
  later a cause w htold := by cases htold
  up hnot := absurd trivial hnot
  ended _ _ hpos := absurd hpos (Nat.lt_irrefl 0)
  asleep n hn := by cases hn
  called n k hk := by cases hk
  own k hours := by cases hours
  unbegun k hwaits := absurd rfl hwaits
  address hloop := absurd rfl hloop
  reported _ _ cause w htold := by cases htold
  announced a hin := by cases hin
  asked := fun pre err n post heq =>
    absurd heq.symm (List.append_ne_nil_of_right_ne_nil _ (List.cons_ne_nil _ _))

/-- What holds between the steps of an undisturbed run. -/
structure Undisturbed (c : Lifecycle) : Prop where
  lives : c.Lives
  calls : c.account.Promised ∧ c.account.Called
  honest : Honest c.pursuit c.trace (c.status = .disconnected)

theorem Undisturbed.step (h : c.Undisturbed) {e : Event} (he : c.undisturbed e = true) :
    (c.step e).Undisturbed where
  lives := h.lives.step e
  calls := Account.Called.chain h.calls (does_step h.lives.sound e)
  honest := by
    have hadvances := advances_happen h.lives.sound e
    exact (h.honest.advances h.lives h.calls he hadvances).steady (.of_eq rfl rfl rfl)

theorem undisturbed_new (reconnect : Option ReconnectOptions) (addressable : Bool) :
    (new reconnect addressable).Undisturbed where
  lives := lives_new reconnect addressable
  calls := ⟨promised_new reconnect addressable, called_new reconnect addressable⟩
  honest := by
    have hdown : ((new reconnect addressable).status = .disconnected) = True := eq_true rfl
    rw [hdown]
    exact honest_new reconnect addressable

theorem undisturbed_run {reconnect : Option ReconnectOptions} {addressable : Bool}
    {es : List Event}
    (hes : Along step (fun c e => c.undisturbed e = true) (new reconnect addressable) es) :
    (run step (new reconnect addressable) es).Undisturbed :=
  run_invariant_along (fun _ _ h he => h.step he) (undisturbed_new reconnect addressable) hes

/-- `disconnected` tells the truth about reconnecting. -/
structure TellsTruly (c : Lifecycle) : Prop where
  announced : ∀ a, .retried a ∈ c.trace →
    ∃ b cause, a = b + 1 ∧ .queued (.disconnected b (some cause) true) ∈ c.trace
  denied : ∀ a cause, .queued (.disconnected a cause false) ∈ c.trace → .retried (a + 1) ∉ c.trace
  pursued : ∀ cause, .queued (.disconnected c.link (some cause) true) ∈ c.trace →
    c.stopped = true ∨ c.loop ≠ none
  asked : ∀ pre err n post, c.trace = pre ++ .asked err n :: post → ∃ options a post',
    c.reconnect = some options ∧ post = .queued (.disconnected a (some err)
      ((options.shouldRetry err n pre.length).getD false)) :: post'

/-- **`disconnected` is the policy's answer, and the loop acts on it**: the policy is asked once
of every failure, the loop makes an attempt only after a `disconnected` that told of it, and it
is there after one that told so. -/
theorem tells_truly (reconnect : Option ReconnectOptions) (addressable : Bool) (es : List Event)
    (hes : Along step (fun c e => c.undisturbed e = true) (new reconnect addressable) es) :
    (run step (new reconnect addressable) es).TellsTruly := by
  obtain ⟨hlives, -, h⟩ := undisturbed_run hes
  generalize run step (new reconnect addressable) es = c at hlives h
  refine ⟨h.announced, fun a cause hfalse hin => ?_, fun cause htold => ?_, h.asked⟩
  · obtain ⟨b, cause', heq, htold⟩ := h.announced _ hin
    rw [← Nat.succ.inj heq] at htold
    cases (disconnected_unique hlives hfalse htold).2
  · cases hs : c.stopped with
    | true => exact Or.inl rfl
    | false =>
      have hdown := (h.later _ _ _ htold).2.1 rfl
      exact Or.inr ((h.reported hdown hs cause true htold).1 rfl)

/-- A client that drops, and connects again. -/
def reconnectedRun : List Event := droppedRun ++
  [.deliver, .deliver, .delivered, .woken 1, .resolved 1 (.ok ()), .opened 1 (.ok ()),
    .datagram [.cryptoInit, .initserver .empty true], .woken 1, .resumed]

theorem tells_truly_reconnectedRun :
    Along step (fun c e => c.undisturbed e = true) (new (some alwaysRetries) true)
        reconnectedRun ∧
      (run step (new (some alwaysRetries) true) reconnectedRun).TellsTruly := by
  have hundisturbed : Along step (fun c e => c.undisturbed e = true)
      (new (some alwaysRetries) true) reconnectedRun := by decide
  exact ⟨hundisturbed, tells_truly _ true reconnectedRun hundisturbed⟩

-- Where a caller connects while the loop sleeps, the loop goes by what was answered before.
example :
    let c := run step (new (some { shouldRetry := fun _ _ n => some (n < 4) }) true)
      [.connect false none, .resolved 0 (.ok ()), .opened 0 (.ok ()),
        .datagram [.cryptoInit, .initserver .empty true], .closes none, .deliver, .deliver,
        .delivered, .connect false none, .resolved 1 (.ok ()), .opened 1 (.ok ()),
        .datagram [.cryptoInit, .initserver .empty true], .closes none, .deliver, .deliver,
        .delivered, .slept]
    .queued (.disconnected 2 (some (.made .closed 12)) false) ∈ c.trace ∧
      .retried 3 ∈ c.trace := by
  decide

end Lifecycle

end Teamspeak.Client
