import Teamspeak.Client.Lifecycle.Effects

/-!
# What `connect()` answers

* `connects_answered`: **`connect()` resolves only if the session of its attempt has started;
  it rejects only if its attempt has failed, with the error that `disconnected` tells, or
  before its attempt began; what it waits for comes to something, unless the attempt goes on
  or a `disconnect()` that will end it does; and no two calls share an attempt**.
* `disconnect_releases`: **`disconnect()` comes through, and no `connect()` waits after it**.
-/

namespace Teamspeak.Client

/-- `connect()` rejects with the error `e`, and `disconnected` tells `cause`. -/
def Rejects (cause : Option ClientError) (e : ClientError) : Prop :=
  (∃ clock, cause = some (e.asError clock)) ∨ cause = none ∧ ∃ clock, e = .made .notConnected clock

namespace Account

variable {o o' : Account} {p : Prop}

/-- `disconnected` is told of link `a`, whose attempt has failed with `e`. -/
def FailedWith (o : Account) (a : LinkID) (e : ClientError) : Prop :=
  .attemptFailed a ∈ o.trace ∧
    ∃ cause w, .queued (.disconnected a cause w) ∈ o.trace ∧ Rejects cause e

/-- What holds of the promises of attempts, between one thing that happens and the next. -/
structure Promised (o : Account) : Prop where
  leaving : ∀ l, o.leaving = some l → o.status = .disconnected ∧ l.link = o.link
  connecting : o.status = .connecting → 0 < o.link → o.promise o.link = none
  resolved : ∀ a, 0 < a → o.promise a = some (.ok ()) → .sessionStart a ∈ o.trace
  rejected : ∀ a e, 0 < a → o.promise a = some (.error e) → o.FailedWith a e
  pending : ∀ a, 0 < a → a ≤ o.link → o.promise a = none →
    a = o.link ∧ o.status = .connecting ∨
      (∃ l, o.leaving = some l ∧ l.link = a) ∧ .attemptFailed a ∈ o.trace
  left : ∀ l, o.leaving = some l → l.goodbye = false →
    .queued (.disconnected l.link none false) ∈ o.trace

theorem FailedWith.later {a : LinkID} {e : ClientError} (h : o.FailedWith a e)
    (htold : o.trace ⊆ o'.trace) : o'.FailedWith a e := by
  obtain ⟨hfailed, cause, w, hin, hrejects⟩ := h
  exact ⟨htold hfailed, cause, w, htold hin, hrejects⟩

/-- The promises are what they were. -/
theorem Promised.later (h : o.Promised) (hlater : Later o o')
    (hpromise : ∀ a, 0 < a → o'.promise a = o.promise a)
    (hleaving : o'.leaving = o.leaving)
    (hs : o'.status = o.status ∨ o.status = .connected ∧ o'.status = .disconnected) :
    o'.Promised := by
  have hconnecting : o'.status = .connecting → o.status = .connecting := by
    intro hc
    rcases hs with heq | ⟨-, hd⟩
    · exact heq ▸ hc
    · cases hd.symm.trans hc
  refine ⟨?_, ?_, ?_, ?_, ?_, ?_⟩
  · intro l hl
    rw [hleaving] at hl
    obtain ⟨hd, hlink⟩ := h.leaving l hl
    refine ⟨?_, hlink.trans hlater.link.symm⟩
    rcases hs with heq | ⟨hup, -⟩
    · exact heq.trans hd
    · cases hd.symm.trans hup
  · intro hc hpos
    rw [hlater.link] at hpos ⊢
    exact (hpromise _ hpos).trans (h.connecting (hconnecting hc) hpos)
  · intro a ha hok
    rw [hpromise a ha] at hok
    exact hlater.told (h.resolved a ha hok)
  · intro a e ha herror
    rw [hpromise a ha] at herror
    exact (h.rejected a e ha herror).later hlater.told
  · intro a ha hle hnone
    rw [hlater.link] at hle ⊢
    rw [hpromise a ha] at hnone
    rw [hleaving]
    rcases h.pending a ha hle hnone with ⟨heq, hc⟩ | ⟨hl, hfailed⟩
    · refine Or.inl ⟨heq, ?_⟩
      rcases hs with hsame | ⟨hup, -⟩
      · exact hsame.trans hc
      · cases hup.symm.trans hc
    · exact Or.inr ⟨hl, hlater.told hfailed⟩
  · intro l hl hg
    rw [hleaving] at hl
    exact hlater.told (h.left l hl hg)

/-- The attempt that is under way is settled. -/
theorem Promised.settles (h : o.Promised) (hlater : Later o o') (hs : o.status = .connecting)
    (hs' : o'.status ≠ .connecting) (hleaving : o'.leaving = o.leaving)
    {result : Except ClientError Unit}
    (hpromise : ∀ a, 0 < a → o'.promise a = o.settles o.link result a)
    (hok : result = .ok () → .sessionStart o.link ∈ o'.trace)
    (herror : ∀ e, result = .error e → o'.FailedWith o.link e) : o'.Promised := by
  have hnone : o'.leaving = none := by
    rw [hleaving]
    cases hl : o.leaving with
    | none => rfl
    | some l => cases hs.symm.trans (h.leaving l hl).1
  have hother : ∀ a, 0 < a → a ≠ o.link → o'.promise a = o.promise a :=
    fun a ha hne => (hpromise a ha).trans (if_neg hne)
  have hsame : ∀ a, 0 < a → a = o.link → o'.promise a = some result :=
    fun a ha heq => (hpromise a ha).trans (if_pos heq)
  refine ⟨?_, fun hc => absurd hc hs', ?_, ?_, ?_, ?_⟩
  · intro l hl
    cases hnone.symm.trans hl
  · intro a ha hres
    by_cases heq : a = o.link
    · rw [hsame a ha heq, Option.some.injEq] at hres
      exact heq ▸ hok hres
    · rw [hother a ha heq] at hres
      exact hlater.told (h.resolved a ha hres)
  · intro a e ha hres
    by_cases heq : a = o.link
    · rw [hsame a ha heq, Option.some.injEq] at hres
      exact heq ▸ herror e hres
    · rw [hother a ha heq] at hres
      exact (h.rejected a e ha hres).later hlater.told
  · intro a ha hle hres
    by_cases heq : a = o.link
    · cases (hsame a ha heq).symm.trans hres
    · rw [hother a ha heq] at hres
      rw [hlater.link] at hle
      rcases h.pending a ha hle hres with ⟨heq', -⟩ | ⟨⟨l, hl, -⟩, -⟩
      · exact absurd heq' heq
      · cases hs.symm.trans (h.leaving l hl).1
  · intro l hl
    cases hnone.symm.trans hl

theorem Promised.begins (h : o.Promised) (hs : o.status = .disconnected) (hl : o.leaving = none)
    {k : ConnectID} (hbegins : Begins o o' k) : o'.Promised := by
  refine ⟨?_, ?_, ?_, ?_, ?_, ?_⟩
  · intro l hl'
    cases hbegins.leaving.symm.trans hl'
  · intro _ hpos
    rw [hbegins.promise _ hpos, if_pos hbegins.link]
  · intro a ha hres
    rw [hbegins.promise a ha] at hres
    split at hres
    · cases hres
    · exact hbegins.told (h.resolved a ha hres)
  · intro a e ha hres
    rw [hbegins.promise a ha] at hres
    split at hres
    · cases hres
    · exact (h.rejected a e ha hres).later hbegins.told
  · intro a ha hle hres
    rw [hbegins.promise a ha] at hres
    rw [hbegins.link] at hle
    by_cases heq : a = o.link + 1
    · exact Or.inl ⟨heq.trans hbegins.link.symm, hbegins.status⟩
    · -- Every attempt before this one is settled.
      rw [if_neg heq] at hres
      rcases h.pending a ha (Nat.le_of_lt_succ (lt_of_le_of_ne hle heq)) hres with
        ⟨-, hc⟩ | ⟨⟨l, hl', -⟩, -⟩
      · cases hs.symm.trans hc
      · cases hl.symm.trans hl'
  · intro l hl'
    cases hbegins.leaving.symm.trans hl'

theorem Promised.quits (h : o.Promised) (hs : o.status ≠ .disconnected) (hquits : Quits o o') :
    o'.Promised := by
  obtain ⟨l, hl, hlink, hg⟩ := hquits.leaving
  refine ⟨?_, ?_, ?_, ?_, ?_, ?_⟩
  · intro l' hl'
    cases hl.symm.trans hl'
    exact ⟨hquits.status, hlink.trans hquits.later.link.symm⟩
  · intro hc
    cases hquits.status.symm.trans hc
  · intro a ha hres
    rw [hquits.promise a ha] at hres
    exact hquits.later.told (h.resolved a ha hres)
  · intro a e ha hres
    rw [hquits.promise a ha] at hres
    exact (h.rejected a e ha hres).later hquits.later.told
  · intro a ha hle hres
    rw [hquits.promise a ha] at hres
    rw [hquits.later.link] at hle
    right
    rcases h.pending a ha hle hres with ⟨heq, hc⟩ | ⟨⟨l', hl', -⟩, -⟩
    · exact ⟨⟨l, hl, hlink.trans heq.symm⟩, heq ▸ hquits.failed hc⟩
    · exact absurd (h.leaving l' hl').1 hs
  · intro l' hl' hg'
    cases hl.symm.trans hl'
    cases hg.symm.trans hg'

theorem Promised.leaves (h : o.Promised) {l : Leaving} (hl : o.leaving = some l)
    (hleaves : Leaves o o' l.link) : o'.Promised := by
  obtain ⟨hs, hlink⟩ := h.leaving l hl
  obtain ⟨l', hl', hlink', hg'⟩ := hleaves.leaving
  refine ⟨?_, ?_, ?_, ?_, ?_, ?_⟩
  · intro l'' hl''
    cases hl'.symm.trans hl''
    exact ⟨hleaves.status.trans hs, hlink'.trans (hlink.trans hleaves.later.link.symm)⟩
  · intro hc
    cases hs.symm.trans (hleaves.status.symm.trans hc)
  · intro a ha hres
    rw [hleaves.promise a ha] at hres
    exact hleaves.later.told (h.resolved a ha hres)
  · intro a e ha hres
    rw [hleaves.promise a ha] at hres
    exact (h.rejected a e ha hres).later hleaves.later.told
  · intro a ha hle hres
    rw [hleaves.promise a ha] at hres
    rw [hleaves.later.link] at hle
    right
    rcases h.pending a ha hle hres with ⟨-, hc⟩ | ⟨⟨l'', hl'', ha'⟩, hfailed⟩
    · cases hs.symm.trans hc
    · cases hl.symm.trans hl''
      exact ⟨⟨l', hl', hlink'.trans ha'⟩, hleaves.later.told hfailed⟩
  · intro l'' hl'' _
    cases hl'.symm.trans hl''
    rw [hlink']
    exact hleaves.disconnected

theorem Promised.hasLeft (h : o.Promised) (hs : o.status = .disconnected) {l : Leaving}
    (hl : o.leaving = some l) (hg : l.goodbye = false) (hleft : Left o o' l.link) : o'.Promised := by
  obtain ⟨clock, rfl⟩ := hleft
  have htold := h.left l hl hg
  refine ⟨fun l' hl' => (by cases hl'), fun hc => (by cases hs.symm.trans hc), ?_, ?_, ?_,
    fun l' hl' => (by cases hl')⟩
  · intro a ha hres
    dsimp only at hres
    split at hres
    · rename_i heq
      subst heq
      cases hold : o.promise l.link with
      | none =>
        rw [hold] at hres
        cases hres
      | some result =>
        rw [hold] at hres
        cases hres
        exact h.resolved _ ha hold
    · exact h.resolved a ha hres
  · intro a e ha hres
    dsimp only at hres
    split at hres
    · rename_i heq
      subst heq
      cases hold : o.promise l.link with
      | none =>
        rw [hold] at hres
        cases hres
        have hlink := (h.leaving l hl).2
        rcases h.pending l.link ha (Nat.le_of_eq hlink) hold with ⟨-, hc⟩ | ⟨-, hfailed⟩
        · cases hs.symm.trans hc
        · exact ⟨hfailed, none, false, htold, Or.inr ⟨rfl, clock, rfl⟩⟩
      | some result =>
        rw [hold] at hres
        cases hres
        exact h.rejected _ e ha hold
    · exact h.rejected a e ha hres
  · intro a ha hle hres
    dsimp only at hres
    split at hres
    · rename_i heq
      subst heq
      cases hold : o.promise l.link with
      | none =>
        rw [hold] at hres
        cases hres
      | some result =>
        rw [hold] at hres
        cases hres
    · rename_i hne
      rcases h.pending a ha hle hres with ⟨-, hc⟩ | ⟨⟨l', hl', ha'⟩, -⟩
      · cases hs.symm.trans hc
      · cases hl.symm.trans hl'
        exact absurd ha'.symm hne

theorem Promised.does (h : o.Promised) (hdoes : Does p o o') : o'.Promised := by
  cases hdoes with
  | frame hframe =>
    exact h.later hframe.later hframe.promise hframe.leaving (Or.inl hframe.status)
  | overtaken hp error hs hframe =>
    have hended : Promised { o with view := o.view.end_ error.cause } :=
      ⟨h.leaving, h.connecting, h.resolved, h.rejected, h.pending, h.left⟩
    exact hended.later hframe.later hframe.promise hframe.leaving (Or.inl hframe.status)
  | fails error hs hfails =>
    obtain ⟨clock, w, htold⟩ := hfails.disconnected
    refine h.settles hfails.later hs (by simp [hfails.status]) hfails.leaving hfails.promise
      (fun heq => by cases heq) fun e heq => ?_
    cases heq
    exact ⟨hfails.failed, _, w, htold, Or.inl ⟨clock, rfl⟩⟩
  | drops error hs hdrops =>
    exact h.later hdrops.later hdrops.promise hdrops.leaving (Or.inr ⟨hs, hdrops.status⟩)
  | connects hs hconnects =>
    exact h.settles hconnects.later hs (by simp [hconnects.status]) hconnects.leaving
      hconnects.promise (fun _ => hconnects.started) fun e heq => by cases heq
  | begins k hs hl hbegins => exact h.begins hs hl hbegins
  | takes k htakes =>
    rw [htakes.same]
    exact ⟨h.leaving, h.connecting, h.resolved, h.rejected, h.pending, h.left⟩
  | goes k hgoes =>
    obtain ⟨-, waiting, -, rfl⟩ := hgoes
    exact ⟨h.leaving, h.connecting, h.resolved, h.rejected, h.pending, h.left⟩
  | returns k hreturns =>
    obtain ⟨-, result, -, rfl⟩ := hreturns
    exact ⟨h.leaving, h.connecting, h.resolved, h.rejected, h.pending, h.left⟩
  | quits hp hs hquits => exact h.quits hs hquits
  | leaves l hs hl hg hleaves => exact h.leaves hl hleaves
  | left l hs hl hg hleft => exact h.hasLeft hs hl hg hleft

/-- What the promise of an attempt has come to, stays. -/
theorem Promised.kept (h : o.Promised) (hdoes : Does p o o') {a : LinkID} (hpos : 0 < a)
    (hle : a ≤ o.link) {result : Except ClientError Unit} (hsome : o.promise a = some result) :
    o'.promise a = some result := by
  have hother : o.status = .connecting → ∀ r, o.settles o.link r a = some result := by
    intro hs r
    have hne : a ≠ o.link := by
      rintro rfl
      cases (h.connecting hs hpos).symm.trans hsome
    exact (if_neg hne).trans hsome
  cases hdoes with
  | frame hframe => exact (hframe.promise a hpos).trans hsome
  | overtaken _ _ _ hframe => exact (hframe.promise a hpos).trans hsome
  | fails _ hs hfails => exact (hfails.promise a hpos).trans (hother hs _)
  | drops _ _ hdrops => exact (hdrops.promise a hpos).trans hsome
  | connects hs hconnects => exact (hconnects.promise a hpos).trans (hother hs _)
  | begins _ _ _ hbegins =>
    have hne : a ≠ o.link + 1 := Nat.ne_of_lt (Nat.lt_succ_of_le hle)
    exact (hbegins.promise a hpos).trans ((if_neg hne).trans hsome)
  | takes _ htakes =>
    rw [htakes.same]
    exact hsome
  | goes _ hgoes =>
    obtain ⟨-, _, -, rfl⟩ := hgoes
    exact hsome
  | returns _ hreturns =>
    obtain ⟨-, _, -, rfl⟩ := hreturns
    exact hsome
  | quits _ _ hquits => exact (hquits.promise a hpos).trans hsome
  | leaves _ _ _ _ hleaves => exact (hleaves.promise a hpos).trans hsome
  | left l _ _ _ hleft =>
    obtain ⟨clock, rfl⟩ := hleft
    by_cases heq : a = l.link
    · subst heq
      simp [hsome]
    · simp [heq, hsome]

/-! ### Calls -/

/-- What holds of the calls of `connect()`: call `k` has attempt `callLink k`, or none yet. -/
structure Called (o : Account) : Prop where
  begun : ∀ k, o.waiting k = .resolving ∨ o.waiting k = .opening ∨ o.waiting k = .settling →
    0 < o.callLink k
  made : ∀ k, o.callLink k ≤ o.link
  done : ∀ k result, 0 < o.callLink k → o.waiting k = .done result →
    o.promise (o.callLink k) = some result
  unbegun : ∀ k, (o.waiting k).disconnects?.isSome → o.callLink k = 0
  never : ∀ k, k < o.nextConnect → o.callLink k = 0 → o.waiting k ≠ .done (.ok ())
  apart : ∀ j k, 0 < o.callLink j → o.callLink j = o.callLink k → j = k
  fresh : ∀ k, o.nextConnect ≤ k → o.callLink k = 0 ∧ (o.waiting k).disconnects? = none

/-- No call goes on. -/
theorem Called.later (h : o.Called) (hlater : Later o o')
    (hkept : ∀ a result, 0 < a → a ≤ o.link → o.promise a = some result →
      o'.promise a = some result) : o'.Called := by
  obtain ⟨-, hlink, hwaiting, hcallLink, hnext⟩ := hlater
  refine ⟨?_, ?_, ?_, ?_, ?_, ?_, ?_⟩
  · rw [hwaiting, hcallLink]
    exact h.begun
  · rw [hlink, hcallLink]
    exact h.made
  · rw [hwaiting, hcallLink]
    exact fun k result hpos hdone => hkept _ result hpos (h.made k) (h.done k result hpos hdone)
  · rw [hwaiting, hcallLink]
    exact h.unbegun
  · rw [hwaiting, hcallLink, hnext]
    exact h.never
  · rw [hcallLink]
    exact h.apart
  · rw [hwaiting, hcallLink, hnext]
    exact h.fresh

/-- The call that is taken has no attempt, and there is none after it. -/
theorem Called.calls (h : o.Called) {k : ConnectID} (hcalls : Calls o o' k) :
    o.callLink k = 0 ∧ ∀ j, o'.nextConnect ≤ j → o.nextConnect ≤ j ∧ j ≠ k := by
  rcases hcalls.call with ⟨rfl, hnext⟩ | ⟨hwaits, hnext⟩
  · refine ⟨(h.fresh _ (Nat.le_refl _)).1, fun j hj => ?_⟩
    rw [hnext] at hj
    exact ⟨Nat.le_of_succ_le hj, Nat.ne_of_gt hj⟩
  · refine ⟨h.unbegun k hwaits, fun j hj => ?_⟩
    rw [hnext] at hj
    refine ⟨hj, ?_⟩
    rintro rfl
    rw [(h.fresh j hj).2] at hwaits
    cases hwaits

theorem Calls.before {j k : ConnectID} (hcalls : Calls o o' k) (hne : j ≠ k)
    (hj : j < o'.nextConnect) : j < o.nextConnect := by
  rcases hcalls.call with ⟨rfl, hnext⟩ | ⟨-, hnext⟩
  · rw [hnext] at hj
    exact Nat.lt_of_le_of_ne (Nat.le_of_lt_succ hj) hne
  · exact hnext ▸ hj

theorem Called.begins (h : o.Called) {k : ConnectID} (hbegins : Begins o o' k) : o'.Called := by
  obtain ⟨-, hnext⟩ := h.calls hbegins.calls
  have hothers := hbegins.calls.others
  have hk : o'.callLink k = o.link + 1 := hbegins.callLink
  -- The attempt of `k` is new: no other call has it.
  have hnew : ∀ j, j ≠ k → o'.callLink j ≠ o.link + 1 := by
    intro j hne heq
    rw [(hothers j hne).2] at heq
    exact absurd (heq ▸ h.made j) (Nat.not_succ_le_self _)
  refine ⟨?_, ?_, ?_, ?_, ?_, ?_, ?_⟩
  · intro j hwaits
    by_cases hne : j = k
    · rw [hne, hk]
      exact Nat.succ_pos _
    · rw [(hothers j hne).1] at hwaits
      rw [(hothers j hne).2]
      exact h.begun j hwaits
  · intro j
    rw [hbegins.link]
    by_cases hne : j = k
    · rw [hne, hk]
    · rw [(hothers j hne).2]
      exact Nat.le_succ_of_le (h.made j)
  · intro j result hpos hdone
    by_cases hne : j = k
    · subst hne
      cases hbegins.waiting.symm.trans hdone
    · rw [hbegins.promise _ hpos, if_neg (hnew j hne)]
      rw [(hothers j hne).1] at hdone
      rw [(hothers j hne).2] at hpos ⊢
      exact h.done j result hpos hdone
  · intro j hwaits
    by_cases hne : j = k
    · subst hne
      rw [hbegins.waiting] at hwaits
      cases hwaits
    · rw [(hothers j hne).1] at hwaits
      rw [(hothers j hne).2]
      exact h.unbegun j hwaits
  · intro j hj hzero
    by_cases hne : j = k
    · rw [hne, hbegins.waiting]
      exact fun hdone => by cases hdone
    · rw [(hothers j hne).2] at hzero
      rw [(hothers j hne).1]
      exact h.never j (hbegins.calls.before hne hj) hzero
  · intro i j hpos heq
    by_cases hi : i = k
    · by_contra hne
      have hj : j ≠ k := fun hj => hne (hi.trans hj.symm)
      rw [hi, hk] at heq
      exact hnew j hj heq.symm
    · by_cases hj : j = k
      · rw [hj, hk] at heq
        exact absurd heq (hnew i hi)
      · rw [(hothers i hi).2] at hpos heq
        rw [(hothers j hj).2] at heq
        exact h.apart i j hpos heq
  · intro j hj
    obtain ⟨hle, hne⟩ := hnext j hj
    rw [(hothers j hne).1, (hothers j hne).2]
    exact h.fresh j hle

theorem Called.takes (h : o.Called) {k : ConnectID} (htakes : Takes o o' k) : o'.Called := by
  obtain ⟨hzero, hnext⟩ := h.calls htakes.calls
  have hothers := htakes.calls.others
  have hpromise : o'.promise = o.promise := by rw [htakes.same]
  have hlink : o'.link = o.link := by rw [htakes.same]
  have hk : o'.callLink k = 0 := by
    rcases htakes.callLink with hnone | ⟨hsame, -⟩
    · exact hnone
    · exact hsame.trans hzero
  refine ⟨?_, ?_, ?_, ?_, ?_, ?_, ?_⟩
  · intro j hwaits
    by_cases hne : j = k
    · subst hne
      rcases htakes.waiting with hsome | ⟨e, hdone⟩
      · rcases hwaits with hw | hw | hw <;> rw [hw] at hsome <;> cases hsome
      · rcases hwaits with hw | hw | hw <;> cases hdone.symm.trans hw
    · rw [(hothers j hne).1] at hwaits
      rw [(hothers j hne).2]
      exact h.begun j hwaits
  · intro j
    rw [hlink]
    by_cases hne : j = k
    · rw [hne, hk]
      exact Nat.zero_le _
    · rw [(hothers j hne).2]
      exact h.made j
  · intro j result hpos hdone
    by_cases hne : j = k
    · rw [hne, hk] at hpos
      exact absurd hpos (Nat.lt_irrefl 0)
    · rw [(hothers j hne).1] at hdone
      rw [hpromise]
      rw [(hothers j hne).2] at hpos ⊢
      exact h.done j result hpos hdone
  · intro j hwaits
    by_cases hne : j = k
    · rw [hne, hk]
    · rw [(hothers j hne).1] at hwaits
      rw [(hothers j hne).2]
      exact h.unbegun j hwaits
  · intro j hj hnone hok
    by_cases hne : j = k
    · subst hne
      rcases htakes.waiting with hsome | ⟨e, hdone⟩
      · rw [hok] at hsome
        cases hsome
      · cases hdone.symm.trans hok
    · rw [(hothers j hne).2] at hnone
      rw [(hothers j hne).1] at hok
      exact h.never j (htakes.calls.before hne hj) hnone hok
  · intro i j hpos heq
    have hi : i ≠ k := by
      rintro rfl
      exact absurd hk (Nat.pos_iff_ne_zero.mp hpos)
    have hj : j ≠ k := by
      rintro rfl
      exact absurd (heq.trans hk) (Nat.pos_iff_ne_zero.mp hpos)
    rw [(hothers i hi).2] at hpos heq
    rw [(hothers j hj).2] at heq
    exact h.apart i j hpos heq
  · intro j hj
    obtain ⟨hle, hne⟩ := hnext j hj
    rw [(hothers j hne).1, (hothers j hne).2]
    exact h.fresh j hle

/-- Call `k`, whose attempt has begun, waits for something else, or returns. -/
theorem Called.goesOn (h : o.Called) {k : ConnectID} (hpos : 0 < o.callLink k) {waiting : Waiting}
    (hbegun : waiting.disconnects? = none)
    (hdone : ∀ result, waiting = .done result → o.promise (o.callLink k) = some result) :
    Called { o with waiting := fun j => if j = k then waiting else o.waiting j } := by
  refine ⟨?_, h.made, ?_, ?_, ?_, h.apart, ?_⟩
  · intro j hwaits
    by_cases hne : j = k
    · exact hne ▸ hpos
    · simp only [if_neg hne] at hwaits
      exact h.begun j hwaits
  · intro j result hj hres
    by_cases hne : j = k
    · simp only [if_pos hne] at hres
      exact hne ▸ hdone result hres
    · simp only [if_neg hne] at hres
      exact h.done j result hj hres
  · intro j hwaits
    by_cases hne : j = k
    · simp only [if_pos hne, hbegun] at hwaits
      cases hwaits
    · simp only [if_neg hne] at hwaits
      exact h.unbegun j hwaits
  · intro j hj hzero
    by_cases hne : j = k
    · rw [hne] at hzero
      exact absurd hzero (Nat.pos_iff_ne_zero.mp hpos)
    · simp only [if_neg hne]
      exact h.never j hj hzero
  · intro j hj
    refine ⟨(h.fresh j hj).1, ?_⟩
    by_cases hne : j = k
    · simp only [if_pos hne, hbegun]
    · simp only [if_neg hne]
      exact (h.fresh j hj).2

theorem Called.does (h : o.Called) (hpromised : o.Promised) (hdoes : Does p o o') :
    o'.Called := by
  have hkept : ∀ a result, 0 < a → a ≤ o.link → o.promise a = some result →
      o'.promise a = some result :=
    fun a result hpos hle hsome => hpromised.kept hdoes hpos hle hsome
  cases hdoes with
  | frame hframe => exact h.later hframe.later hkept
  | overtaken hp error hs hframe => exact h.later ⟨hframe.later.told, hframe.later.link,
      hframe.later.waiting, hframe.later.callLink, hframe.later.nextConnect⟩ hkept
  | fails error hs hfails => exact h.later hfails.later hkept
  | drops error hs hdrops => exact h.later hdrops.later hkept
  | connects hs hconnects => exact h.later hconnects.later hkept
  | begins k hs hl hbegins => exact h.begins hbegins
  | takes k htakes => exact h.takes htakes
  | goes k hgoes =>
    obtain ⟨hwaits, waiting, hw, rfl⟩ := hgoes
    refine h.goesOn (h.begun k (hwaits.imp_right Or.inl)) ?_ fun result heq => ?_
    · rcases hw with rfl | rfl <;> rfl
    · rcases hw with rfl | rfl <;> cases heq
  | returns k hreturns =>
    obtain ⟨hwaits, result, hsome, rfl⟩ := hreturns
    refine h.goesOn (h.begun k (Or.inr (Or.inr hwaits))) rfl fun result' heq => ?_
    cases heq
    exact hsome
  | quits hp hs hquits => exact h.later hquits.later hkept
  | leaves l hs hl hg hleaves => exact h.later hleaves.later hkept
  | left l hs hl hg hleft =>
    obtain ⟨clock, rfl⟩ := hleft
    exact h.later ⟨fun _ => id, rfl, rfl, rfl, rfl⟩ hkept

theorem Called.chain (h : o.Promised ∧ o.Called) (hdoes : Relation.ReflTransGen (Does p) o o') :
    o'.Promised ∧ o'.Called := by
  induction hdoes with
  | refl => exact h
  | tail _ hdo ih => exact ⟨ih.1.does hdo, ih.2.does ih.1 hdo⟩

end Account

namespace Lifecycle

variable {c : Lifecycle}

/-- Call `k` waits for something of its attempt. -/
def UnderWay (c : Lifecycle) (k : ConnectID) : Prop :=
  (c.connects k).waiting = .resolving ∨ (c.connects k).waiting = .opening ∨
    (c.connects k).waiting = .settling

/-- What the calls of `connect()` have come to. -/
structure CallsAnswered (c : Lifecycle) : Prop where
  resolved : ∀ k, k < c.nextConnect → (c.connects k).waiting = .done (.ok ()) →
    .sessionStart (c.connects k).link ∈ c.trace
  rejected : ∀ k e, (c.connects k).waiting = .done (.error e) →
    (c.connects k).link = 0 ∨ c.account.FailedWith (c.connects k).link e
  pending : ∀ k, c.UnderWay k →
    (c.connects k).link = c.link ∧ c.status = .connecting ∨
      (∃ l, c.leaving = some l ∧ l.link = (c.connects k).link) ∨
        ∃ result, (c.links (c.connects k).link).promise = some result
  begun : ∀ k, c.UnderWay k → 0 < (c.connects k).link
  own : ∀ j k, 0 < (c.connects j).link → (c.connects j).link = (c.connects k).link → j = k

theorem callsAnswered_of (hcalls : c.account.Promised ∧ c.account.Called) :
    c.CallsAnswered := by
  obtain ⟨h, hcalled⟩ := hcalls
  refine ⟨?_, ?_, ?_, hcalled.begun, hcalled.apart⟩
  · intro k hk hok
    rcases Nat.eq_zero_or_pos (c.connects k).link with hzero | hpos
    · exact absurd hok (hcalled.never k hk hzero)
    · exact h.resolved _ hpos (hcalled.done k _ hpos hok)
  · intro k e herror
    rcases Nat.eq_zero_or_pos (c.connects k).link with hzero | hpos
    · exact Or.inl hzero
    · exact Or.inr (h.rejected _ e hpos (hcalled.done k _ hpos herror))
  · intro k hway
    have hpos : 0 < (c.connects k).link := hcalled.begun k hway
    cases hpromise : (c.links (c.connects k).link).promise with
    | some result => exact Or.inr (Or.inr ⟨result, rfl⟩)
    | none =>
      rcases h.pending _ hpos (hcalled.made k) hpromise with hconnecting | ⟨hleaving, -⟩
      · exact Or.inl hconnecting
      · exact Or.inr (Or.inl hleaving)

theorem promised_new (reconnect : Option ReconnectOptions) (addressable : Bool) :
    (new reconnect addressable).account.Promised where
  leaving l hl := by cases hl
  connecting hs := by cases hs
  resolved a _ hres := by cases hres
  rejected a e _ hres := by cases hres
  pending a ha hle := absurd (Nat.lt_of_lt_of_le ha hle) (Nat.lt_irrefl 0)
  left l hl := by cases hl

theorem called_new (reconnect : Option ReconnectOptions) (addressable : Bool) :
    (new reconnect addressable).account.Called where
  begun k hwaits := by rcases hwaits with h | h | h <;> cases h
  made k := Nat.le_refl 0
  done k result hpos := absurd hpos (Nat.lt_irrefl 0)
  unbegun k hwaits := by cases hwaits
  never k hk := absurd hk (Nat.not_lt_zero k)
  apart j k hpos := absurd hpos (Nat.lt_irrefl 0)
  fresh k _ := ⟨rfl, rfl⟩

/-- The promises of the attempts, and the calls, of a run. -/
theorem calls_run (reconnect : Option ReconnectOptions) (addressable : Bool) (es : List Event) :
    (run step (new reconnect addressable) es).account.Promised ∧
      (run step (new reconnect addressable) es).account.Called := by
  have hkept : ∀ (c : Lifecycle) (e : Event),
      (c.Lives ∧ c.account.Promised ∧ c.account.Called) →
        (c.step e).Lives ∧ (c.step e).account.Promised ∧ (c.step e).account.Called := by
    rintro c e ⟨hlives, hcalls⟩
    exact ⟨hlives.step e, Account.Called.chain hcalls (does_step hlives.sound e)⟩
  exact (run_invariant hkept es
    ⟨lives_new reconnect addressable, promised_new reconnect addressable,
      called_new reconnect addressable⟩).2

/-- **`connect()` resolves by a session and rejects by a failure that was told**, and never
waits for an attempt that nothing will settle. -/
theorem connects_answered (reconnect : Option ReconnectOptions) (addressable : Bool)
    (es : List Event) : (run step (new reconnect addressable) es).CallsAnswered :=
  callsAnswered_of (calls_run reconnect addressable es)

/-! ### Leaving comes through -/

theorem queue_deliver : c.deliver.queue = c.queue.tail := by
  rw [deliver]
  split <;> rename_i hqueue <;> rw [hqueue] <;> rfl

theorem leaving_deliver : c.deliver.status = c.status ∧ c.deliver.leaving = c.leaving := by
  rw [deliver]
  split <;> exact ⟨rfl, rfl⟩

/-- After `n` deliveries. -/
theorem delivers (n : Nat) :
    (run step c (List.replicate n .deliver)).queue = c.queue.drop n ∧
      (run step c (List.replicate n .deliver)).status = c.status ∧
        (run step c (List.replicate n .deliver)).leaving = c.leaving := by
  induction n generalizing c with
  | zero => exact ⟨rfl, rfl, rfl⟩
  | succ n ih =>
    obtain ⟨hqueue, hs, hl⟩ := ih (c := c.step .deliver)
    refine ⟨hqueue.trans ?_, hs.trans leaving_deliver.1, hl.trans leaving_deliver.2⟩
    change c.deliver.queue.drop n = _
    rw [queue_deliver, List.drop_tail]

/-- The goodbye has ended: nobody waits for it. -/
theorem leaving_goodbyeEnded (hs : c.status = .disconnected) :
    c.goodbyeEnded.status = .disconnected ∧ ∀ l, c.goodbyeEnded.leaving = some l →
      l.goodbye = false := by
  rw [goodbyeEnded]
  split
  · exact ⟨(leave_kept _ _).1.trans hs, fun l hl => by cases hl; rfl⟩
  · rename_i hnot
    refine ⟨hs, fun l hl => ?_⟩
    rw [Bool.eq_false_iff]
    intro hg
    obtain ⟨id, a, g, n⟩ := l
    subst hg
    exact hnot id a n hl

/-- What a `disconnect()` waits for comes: the goodbye ends, and what is queued is delivered. -/
def comeThrough (c : Lifecycle) : Lifecycle :=
  let c := c.step .goodbyeEnded
  run step c (List.replicate c.queue.length .deliver ++ [.delivered, .left])

/-- Nobody has to wait for what is queued, once it is delivered. -/
theorem leaving_left (hs : c.status = .disconnected) (hqueue : c.queue = [])
    (hg : ∀ l, c.leaving = some l → l.goodbye = false) :
    ((c.step .delivered).step .left).status = .disconnected ∧
      ((c.step .delivered).step .left).leaving = none := by
  have hdelivered : c.step .delivered =
      { c with disconnectedDelivered := none, clock := c.clock + 1 } := by
    change ({ c.delivered with clock := c.clock + 1 } : Lifecycle) = _
    rw [delivered, hqueue]
    rfl
  have hleft : ∀ d : Lifecycle, (d.step .left).status = d.left.status ∧
      (d.step .left).leaving = d.left.leaving := fun d => ⟨rfl, rfl⟩
  rw [(hleft _).1, (hleft _).2, hdelivered, left]
  split
  · exact ⟨hs, rfl⟩
  · rename_i hnot
    refine ⟨hs, ?_⟩
    change c.leaving = none
    rw [Option.eq_none_iff_forall_not_mem]
    rintro ⟨id, a, g, n⟩ hl
    cases (hg _ hl : g = false)
    exact hnot id a n hl

theorem status_comeThrough (hs : c.status = .disconnected) :
    c.comeThrough.status = .disconnected ∧ c.comeThrough.leaving = none := by
  obtain ⟨hs', hg⟩ := leaving_goodbyeEnded hs
  obtain ⟨hqueue, hsame, hleaving⟩ := delivers (c := c.step .goodbyeEnded)
    (c.step .goodbyeEnded).queue.length
  rw [comeThrough, run_append]
  refine leaving_left (hsame.trans hs') ?_ ?_
  · rw [hqueue, List.drop_length]
  · rw [hleaving]
    exact hg

/-- Nothing is under way, and no call waits for an attempt. -/
structure Released (c : Lifecycle) : Prop where
  status : c.status = .disconnected
  leaving : c.leaving = none
  calls : ∀ k, c.UnderWay k → ∃ result, (c.links (c.connects k).link).promise = some result

/-- **`disconnect()` comes through, and releases every `connect()`**, as soon as the goodbye has
ended and what is queued is delivered. -/
theorem disconnect_releases (reconnect : Option ReconnectOptions) (addressable : Bool)
    (es : List Event) (aborted : Bool) :
    ((run step (new reconnect addressable) es).step (.disconnect aborted)).comeThrough.Released := by
  obtain ⟨es', hes'⟩ : ∃ es',
      ((run step (new reconnect addressable) es).step (.disconnect aborted)).comeThrough =
        run step (new reconnect addressable) es' := by
    exact ⟨es ++ .disconnect aborted :: .goodbyeEnded :: _, by rw [run_append]; rfl⟩
  have hlives := lives_run reconnect addressable es
  obtain ⟨hs, hl⟩ := status_comeThrough
    (c := (run step (new reconnect addressable) es).step (.disconnect aborted))
    (status_disconnect hlives.sound aborted).1
  refine ⟨hs, hl, fun k hway => ?_⟩
  have hanswered := callsAnswered_of (calls_run reconnect addressable es')
  rw [← hes'] at hanswered
  rcases hanswered.pending k hway with ⟨-, hconnecting⟩ | ⟨l, hl', -⟩ | hsome
  · cases hs.symm.trans hconnecting
  · cases hl.symm.trans hl'
  · exact hsome

end Lifecycle

end Teamspeak.Client
