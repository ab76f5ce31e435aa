import Teamspeak.Client.Lifecycle.Attempts

/-!
# The lines of callers

* `lines_lawful`: **a caller's line is written only in the session it was taken in, after the
  start of that session and before its goodbye and its end, and under its keys**, if the
  middleware hands it on while its call waits for it or while nothing has ended the session.

A call that has returned no longer listens to `#down`, so what the middleware hands on then
finds its signal as the end of the session left it: it may be a line of a later session.
-/

namespace Teamspeak.Client

namespace Shown

/-- The session of link `a` has started, and neither its goodbye nor its end is told yet. -/
structure On (pre : List Shown) (a : LinkID) : Prop where
  start : .sessionStart a ∈ pre
  not_end : ∀ cause, .sessionEnd a cause ∉ pre
  not_goodbye : ∀ dummy, .goodbye a dummy ∉ pre

/-- What is shown of lines stands where it may. -/
def Lawful (pre : List Shown) : Shown → Prop
  | issued n a => On pre a ∧ ∀ b, issued n b ∉ pre
  | wrote n a dummy => On pre a ∧ issued n a ∈ pre ∧ dummy = false
  | goodbye a dummy => dummy = false ∧ ∀ dummy', goodbye a dummy' ∉ pre
  | _ => True

theorem lawful_of_isPlain {shown : Shown} (h : shown.isPlain) (pre : List Shown) :
    Lawful pre shown := by
  cases shown with
  | issued => cases h
  | wrote => cases h
  | goodbye => cases h
  | _ => trivial

end Shown

namespace Lifecycle

variable {c c' : Lifecycle}

/-- The middleware hands a line on while its call waits for it, or while `#down` of the
session it was taken in is not aborted. -/
def Timely (c : Lifecycle) : Event → Prop
  | .handOn n => (c.lines n).returned = false ∨ (c.links (c.lines n).link).down = false
  | _ => True

/-- What holds of lines and goodbyes between steps. -/
structure Lined (c : Lifecycle) : Prop where
  lawful : Log.Founded Shown.Lawful c.trace
  issued : ∀ n a, .issued n a ∈ c.trace → n < c.nextLine
  known : ∀ n, n < c.nextLine → .issued n (c.lines n).link ∈ c.trace ∧ (c.lines n).link ≤ c.link
  said : ∀ a dummy, .goodbye a dummy ∈ c.trace →
    a ≤ c.link ∧ (a = c.link → c.status = .disconnected)

/-- While a client is connected, a session is on. -/
theorem on_of_connected (hlives : c.Lives) (hfifo : c.Fifo) (hlined : c.Lined)
    (hs : c.status = .connected) : Shown.On c.trace c.link := by
  have hsession : c.session = some c.link := (hlives.sound.connected hs).2.1
  obtain ⟨hstarts, hends⟩ := ((hlives.orderly hfifo).ended c.link).1 hsession
  refine ⟨?_, ?_, ?_⟩
  · rw [starts] at hstarts
    exact List.count_pos_iff.mp (by omega)
  · intro cause hmem
    have hpos : 0 < c.ends c.link := List.countP_pos_iff.mpr ⟨_, hmem, by simp [Shown.notice?]⟩
    omega
  · intro dummy hmem
    have hdisconnected := (hlined.said _ _ hmem).2 rfl
    cases hs.symm.trans hdisconnected

/-! ### Steps -/

/-- A plain step takes no line and says no goodbye. -/
theorem Lined.grows (h : c.Lined) (hgrows : Grows c c')
    (honward : c.outline.life.Onward c'.outline.life) : c'.Lined := by
  obtain ⟨⟨l, htrace, -, hplain⟩, hnext, hlines⟩ := hgrows
  have hle : c.link ≤ c'.link := by
    rcases honward with hlt | ⟨heq, -⟩
    · exact Nat.le_of_lt hlt
    · exact Nat.le_of_eq heq
  have hmem : ∀ shown : Shown, shown.isPlain = false → shown ∈ c'.trace → shown ∈ c.trace := by
    intro shown hshown hin
    rw [htrace] at hin
    refine (List.mem_append.mp hin).resolve_right fun hin => ?_
    cases hshown.symm.trans (hplain shown hin)
  refine ⟨?_, ?_, ?_, ?_⟩
  · rw [htrace]
    refine h.lawful.append_of_place fun mid o post hl => Shown.lawful_of_isPlain (hplain o ?_) _
    rw [hl]
    exact List.mem_append_right _ List.mem_cons_self
  · intro n a hin
    rw [hnext]
    exact h.issued n a (hmem _ rfl hin)
  · intro n hn
    rw [hnext] at hn
    obtain ⟨hissued, hlink⟩ := h.known n hn
    rw [hlines, htrace]
    exact ⟨List.mem_append_left _ hissued, hlink.trans hle⟩
  · intro a dummy hin
    obtain ⟨ha, hdisconnected⟩ := h.said a dummy (hmem _ rfl hin)
    refine ⟨ha.trans hle, fun heq => ?_⟩
    by_contra hup
    rcases honward with hlt | ⟨hsame, hback⟩
    · have hlt' : c.link < c'.link := hlt
      have hle' : c'.link ≤ c.link := heq ▸ ha
      exact absurd hlt' (Nat.not_lt.mpr hle')
    · have hup' := Outline.isUp_stage.mp (hback (Outline.isUp_stage.mpr hup))
      exact hup' (hdisconnected (heq.trans hsame.symm))

/-- A goodbye is said to the session that the client held, which is over with it. -/
theorem Lined.tell_goodbye (h : c.Lined) {dummy : Bool} (hdummy : dummy = false)
    (hfirst : ∀ dummy', .goodbye c.link dummy' ∉ c.trace)
    (htold : ShowsSame (c.tell (.goodbye c.link dummy)) c')
    (hlink : c'.link = c.link) (hs : c'.status = .disconnected) : c'.Lined := by
  have htrace : c'.trace = c.trace ++ [.goodbye c.link dummy] := htold.trace
  have hnext : c'.nextLine = c.nextLine := htold.nextLine
  have hlines : c'.lines = c.lines := htold.lines
  refine ⟨?_, ?_, ?_, ?_⟩
  · rw [htrace]
    exact h.lawful.concat ⟨hdummy, hfirst⟩
  · intro n a hin
    rw [htrace] at hin
    rw [hnext]
    exact h.issued n a (by simpa using hin)
  · intro n hn
    rw [hnext] at hn
    obtain ⟨hissued, hle⟩ := h.known n hn
    rw [hlines, htrace, hlink]
    exact ⟨List.mem_append_left _ hissued, hle⟩
  · intro a dummy' hin
    rw [hlink]
    refine ⟨?_, fun _ => hs⟩
    rw [htrace] at hin
    rcases List.mem_append.mp hin with hin | hin
    · exact (h.said a dummy' hin).1
    · rw [List.mem_singleton, Shown.goodbye.injEq] at hin
      exact Nat.le_of_eq hin.1

/-- A line that is shown, of a session that is on. -/
theorem Lined.tell_line (h : c.Lined) {shown : Shown} (hlawful : Shown.Lawful c.trace shown)
    (hsaid : ∀ a dummy, shown ≠ .goodbye a dummy) (hissued : ∀ n a, shown ≠ .issued n a) :
    (c.tell shown).Lined := by
  refine ⟨h.lawful.concat hlawful, ?_, ?_, ?_⟩
  · intro n a hin
    rcases List.mem_append.mp hin with hin | hin
    · exact h.issued n a hin
    · exact absurd (List.mem_singleton.mp hin).symm (hissued n a)
  · intro n hn
    obtain ⟨hknown, hle⟩ := h.known n hn
    exact ⟨List.mem_append_left _ hknown, hle⟩
  · intro a dummy hin
    rcases List.mem_append.mp hin with hin | hin
    · exact h.said a dummy hin
    · exact absurd (List.mem_singleton.mp hin).symm (hsaid a dummy)

theorem Lined.issue (h : c.Lined) (hlives : c.Lives) (hfifo : c.Fifo) :
    c.issue.Lined := by
  rw [Lifecycle.issue]
  split
  · rename_i hcan
    rw [canSend, Bool.and_eq_true, decide_eq_true_eq] at hcan
    have hon := on_of_connected hlives hfifo h hcan.2
    refine ⟨h.lawful.concat ⟨hon, fun b hin => ?_⟩, ?_, ?_, ?_⟩
    · exact absurd (h.issued _ _ hin) (Nat.lt_irrefl _)
    · intro n a hin
      rcases List.mem_append.mp hin with hin | hin
      · exact Nat.lt_succ_of_lt (h.issued n a hin)
      · rw [List.mem_singleton, Shown.issued.injEq] at hin
        rw [hin.1]
        exact Nat.lt_succ_self _
    · intro n hn
      show .issued n (if n = c.nextLine then _ else c.lines n).link ∈ c.trace ++ _ ∧
        (if n = c.nextLine then _ else c.lines n).link ≤ c.link
      split
      · rename_i heq
        rw [heq]
        exact ⟨List.mem_append_right _ (List.mem_singleton.mpr rfl), Nat.le_refl _⟩
      · rename_i hne
        obtain ⟨hknown, hle⟩ := h.known n (lt_of_le_of_ne (Nat.le_of_lt_succ hn) hne)
        exact ⟨List.mem_append_left _ hknown, hle⟩
    · intro a dummy hin
      rcases List.mem_append.mp hin with hin | hin
      · exact h.said a dummy hin
      · cases List.mem_singleton.mp hin
  · exact h

/-- The line is of the session that is on: the signals of those before are aborted. -/
theorem Lined.handOn (h : c.Lined) (hlives : c.Lives) (hfifo : c.Fifo) {n : LineID}
    (htimely : c.Timely (.handOn n)) : (c.handOn n).Lined := by
  rw [Lifecycle.handOn]
  split
  · rename_i hwritten
    obtain ⟨hn, haborted, hcan⟩ := hwritten
    rw [canSend, Bool.and_eq_true, decide_eq_true_eq] at hcan
    obtain ⟨hissued, hle⟩ := h.known n hn
    have hup : (c.links (c.lines n).link).down = false := by
      rcases htimely with hreturned | hdown
      · rw [isAborted, hreturned] at haborted
        simpa using (Bool.or_eq_false_iff.mp haborted).2
      · exact hdown
    have hlink : (c.lines n).link = c.link := by
      by_contra hne
      have hdown := hlives.sound.wired.older (c.lines n).link (lt_of_le_of_ne hle hne)
      cases hup.symm.trans hdown
    have hkeys : (c.links c.link).cryptoInitComplete = true := hlives.sound.wired.keys hcan.2
    rw [hlink] at hissued
    refine h.tell_line ⟨on_of_connected hlives hfifo h hcan.2, hissued, ?_⟩
      (fun a dummy heq => by cases heq) (fun m a heq => by cases heq)
    rw [hkeys]
    rfl
  · exact h

theorem Lined.disconnect (h : c.Lined) (hlives : c.Lives) (aborted : Bool) :
    (c.disconnect aborted).Lined := by
  rcases grows_disconnect (c := c) aborted with hgrows | ⟨hs, hholds, d, hgrows, hlink, hleft, htold⟩
  · exact h.grows hgrows (Life.onward_of_reach (moves_disconnect aborted hlives.sound).2)
  · have hd : d.Lined := h.grows hgrows (Or.inr ⟨hlink.symm, fun hup =>
      absurd hleft (Outline.isUp_stage.mp hup)⟩)
    have hkeys : (c.links c.link).cryptoInitComplete = true :=
      hholds.elim (fun hconnected => hlives.sound.wired.keys hconnected) id
    obtain ⟨⟨l, htrace, -, hplain⟩, -⟩ := hgrows
    obtain ⟨hdisconnected, hsame⟩ := status_disconnect hlives.sound aborted
    rw [← hlink] at htold hsame
    refine hd.tell_goodbye ?_ ?_ htold hsame hdisconnected
    · rw [hlink, hkeys]
      rfl
    · -- A goodbye to this session would have ended it.
      intro dummy hin
      rw [hlink, htrace] at hin
      rcases List.mem_append.mp hin with hin | hin
      · exact hs ((h.said c.link dummy hin).2 rfl)
      · cases hplain _ hin

theorem Lined.deliver (h : c.Lined) : c.deliver.Lined := by
  rw [Lifecycle.deliver]
  split
  · exact h
  · have hqueue : ∀ queue, ({ c with queue } : Lifecycle).Lined :=
      fun _ => ⟨h.lawful, h.issued, h.known, h.said⟩
    exact (hqueue _).tell_line trivial (fun a dummy heq => by cases heq)
      (fun m a heq => by cases heq)

theorem Lined.step (h : c.Lined) (hlives : c.Lives) (hfifo : c.Fifo) {e : Event}
    (htimely : c.Timely e) : (c.step e).Lined := by
  by_cases he : e.isPlain
  · exact h.grows (grows_step he) (Life.onward_of_reach (moves_step e hlives.sound).2)
  · have hhappen : (c.happen e).Lined := by
      cases e with
      | disconnect aborted => exact h.disconnect hlives aborted
      | deliver => exact h.deliver
      | issue => exact h.issue hlives hfifo
      | handOn n => exact h.handOn hlives hfifo htimely
      | _ => exact absurd rfl he
    exact ⟨hhappen.lawful, hhappen.issued, hhappen.known, hhappen.said⟩

/-! ### Every run -/

theorem lined_new (reconnect : Option ReconnectOptions) (addressable : Bool) :
    (new reconnect addressable).Lined where
  lawful := Log.Founded.nil
  issued _ _ hin := absurd hin List.not_mem_nil
  known _ hn := absurd hn (Nat.not_lt_zero _)
  said _ _ hin := absurd hin List.not_mem_nil

/-- **A caller's line goes out only in the session it was taken in, under the keys of that
session, before its goodbye and its end.** -/
theorem lines_lawful (reconnect : Option ReconnectOptions) (addressable : Bool)
    (es : List Event) (htimely : Along step Timely (new reconnect addressable) es) :
    ∀ pre shown post, (run step (new reconnect addressable) es).trace = pre ++ shown :: post →
      shown.Lawful pre := by
  have hkept : ∀ (c : Lifecycle) (e : Event), (c.Lives ∧ c.Fifo ∧ c.Lined) → c.Timely e →
      (c.step e).Lives ∧ (c.step e).Fifo ∧ (c.step e).Lined := by
    rintro c e ⟨hlives, hfifo, hlined⟩ he
    exact ⟨hlives.step e, hfifo.step e, hlined.step hlives hfifo he⟩
  have hnew : (new reconnect addressable).Fifo := rfl
  obtain ⟨-, -, hlined⟩ := run_invariant_along hkept
    ⟨lives_new reconnect addressable, hnew, lined_new reconnect addressable⟩ htimely
  exact hlined.lawful

/-- The run of a client that connects, sends a line and leaves. -/
def leavingRun : List Event :=
  [.connect false none, .resolved 0 (.ok ()), .opened 0 (.ok ()),
    .datagram [.cryptoInit, .initserver .empty true], .woken 0, .issue, .handOn 0, .disconnect false,
    .handOn 0, .goodbyeEnded]

theorem lines_lawful_leavingRun :
    Along step Timely (new none true) leavingRun ∧
      ∀ pre shown post, (run step (new none true) leavingRun).trace = pre ++ shown :: post →
        shown.Lawful pre := by
  have htimely : Along step Timely (new none true) leavingRun :=
    ⟨trivial, trivial, trivial, trivial, trivial, trivial, Or.inl rfl, trivial, Or.inl rfl,
      trivial, trivial⟩
  exact ⟨htimely, lines_lawful none true leavingRun htimely⟩

example : (run step (new none true) leavingRun).trace =
    [.sessionStart 1, .queued (.connected 1 false), .issued 0 1, .wrote 0 1 false,
      .goodbye 1 false, .sessionEnd 1 .disconnect, .queued (.disconnected 1 none false)] := by
  decide

end Lifecycle

end Teamspeak.Client
