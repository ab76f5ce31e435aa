import Teamspeak.Client.Lifecycle.Moves
import Teamspeak.Client.Lifecycle.Shows

/-!
# Attempts and sessions

* `attempts_orderly`: **in every run an attempt is settled once, by the start of its session
  or by its failure; an attempt that is over has had its `disconnected` queued once, and one
  that is not has not; what was queued is delivered in order; between two `disconnected` there
  is at most one `connected`; and a session ends once before the next one starts**.
-/

namespace Teamspeak.Client

def Queued.isConnected : Queued → Bool
  | connected _ _ => true
  | _ => false

namespace Shown

def isSessionStart : Shown → Bool
  | sessionStart _ => true
  | _ => false

def isSessionEnd : Shown → Bool
  | sessionEnd _ _ => true
  | _ => false

end Shown

namespace Lifecycle

variable {c : Lifecycle}

/-- How often link `a` is told to have failed, started, ended, disconnected. -/
def failures (c : Lifecycle) (a : LinkID) : Nat := c.trace.count (.attemptFailed a)

def starts (c : Lifecycle) (a : LinkID) : Nat := c.trace.count (.sessionStart a)

def ends (c : Lifecycle) (a : LinkID) : Nat :=
  c.trace.countP fun shown => shown.notice? = some (.ended a)

def disconnections (c : Lifecycle) (a : LinkID) : Nat :=
  c.trace.countP fun shown => shown.notice? = some (.disconnected a)

/-- Link `a` was made, and is not connecting any more. -/
def Settled (c : Lifecycle) (a : LinkID) : Prop :=
  0 < a ∧ a ≤ c.link ∧ (a = c.link → c.status ≠ .connecting)

/-- Link `a` was made, and it is neither connecting, connected nor saying goodbye. -/
def Over (c : Lifecycle) (a : LinkID) : Prop :=
  0 < a ∧ a ≤ c.link ∧ (a = c.link → c.status = .disconnected ∧ c.outline.goodbye = false)

structure Orderly (c : Lifecycle) : Prop where
  settled : ∀ a, (c.Settled a → c.starts a + c.failures a = 1) ∧
    (¬c.Settled a → c.starts a + c.failures a = 0)
  finished : ∀ a, (c.Over a → c.disconnections a = 1) ∧ (¬c.Over a → c.disconnections a = 0)
  ended : ∀ a, (c.session = some a → c.starts a = 1 ∧ c.ends a = 0) ∧
    (c.session ≠ some a → c.ends a = c.starts a)
  delivered : c.deliveredLog ++ c.queue = c.queuedLog
  connected : ∀ pre mid post, c.deliveredLog = pre ++ mid ++ post →
    (∀ delivery ∈ mid, delivery.isDisconnected = false) → mid.countP Queued.isConnected ≤ 1
  sessions : ∀ pre a mid b post,
    c.trace = pre ++ .sessionStart a :: (mid ++ .sessionStart b :: post) →
      (∀ shown ∈ mid, shown.isSessionStart = false) → mid.countP Shown.isSessionEnd = 1

/-! ### Notices and what is shown -/

theorem count_notices (notice : Notice) :
    c.notices.count notice = c.trace.countP fun shown => shown.notice? = some notice := by
  rw [notices, List.count, List.countP_filterMap]
  refine List.countP_congr fun shown _ => ?_
  cases shown.notice? <;> simp

theorem starts_eq (a : LinkID) : c.starts a = c.notices.count (.started a) := by
  rw [count_notices, starts, List.count]
  refine List.countP_congr fun shown _ => ?_
  rcases shown with _ | _ | _ | (_ | _ | _ | _ | _) | _ | _ | _ | _ | _ | _ <;>
    simp [Shown.notice?]

theorem failures_eq (a : LinkID) : c.failures a = c.notices.count (.failed a) := by
  rw [count_notices, failures, List.count]
  refine List.countP_congr fun shown _ => ?_
  rcases shown with _ | _ | _ | (_ | _ | _ | _ | _) | _ | _ | _ | _ | _ | _ <;>
    simp [Shown.notice?]

theorem ends_eq (a : LinkID) : c.ends a = c.notices.count (.ended a) := (count_notices _).symm

theorem disconnections_eq (a : LinkID) : c.disconnections a = c.notices.count (.disconnected a) :=
  (count_notices _).symm

/-! ### Every run -/

/-- Up to `n`, and not `n` itself if `p`. -/
theorem upTo_iff {a n : Nat} {p : Prop} [Decidable p] (hn : p → 0 < n) :
    (0 < a ∧ a ≤ n ∧ (a = n → ¬p)) ↔ 0 < a ∧ a ≤ if p then n - 1 else n := by
  split
  · rename_i h
    have := hn h
    simp only [h, not_true_eq_false, imp_false]
    omega
  · rename_i h
    simp [h]

theorem settled_iff (htold : c.outline.life.Told) (a : LinkID) :
    c.Settled a ↔ 0 < a ∧ a ≤ c.outline.life.settledTo := by
  have hpos : c.outline.stage = .connecting → 0 < c.link := fun h =>
    htold.pos fun h' => by cases h.symm.trans h'
  have hstatus : c.status ≠ .connecting ↔ ¬c.outline.stage = .connecting :=
    not_congr (Outline.stage_eq_connecting (o := c.outline)).symm
  rw [Settled, hstatus]
  exact upTo_iff hpos

theorem over_iff (htold : c.outline.life.Told) (a : LinkID) :
    c.Over a ↔ 0 < a ∧ a ≤ c.outline.life.overTo := by
  have hpos : ¬c.outline.stage = .over → 0 < c.link := htold.pos
  have hstatus : c.status = .disconnected ∧ c.outline.goodbye = false ↔
      ¬¬c.outline.stage = .over := by
    rw [not_not]
    exact (Outline.stage_eq_over (o := c.outline)).symm
  rw [Over, hstatus, Life.overTo, ← ite_not]
  exact upTo_iff hpos

theorem Lives.told (h : c.Lives) : c.outline.life.Told := Life.told_of_reach h.reached

/-- Of a link, one `disconnected` is told. -/
theorem disconnected_unique (h : c.Lives) {a : LinkID} {cause cause' : Option ClientError}
    {w w' : Bool} (hin : .queued (.disconnected a cause w) ∈ c.trace)
    (hin' : .queued (.disconnected a cause' w') ∈ c.trace) : cause = cause' ∧ w = w' := by
  have hle : c.disconnections a ≤ 1 := by
    rw [disconnections_eq]
    refine (h.told.finished a).trans_le ?_
    split <;> omega
  have heq := Log.eq_of_countP_le_one hle hin hin' (decide_eq_true rfl) (decide_eq_true rfl)
  rw [Shown.queued.injEq, Queued.disconnected.injEq] at heq
  exact heq.2

/-- The session of an attempt that has failed never started. -/
theorem not_started_of_failed (h : c.Lives) {a : LinkID} (hfailed : .attemptFailed a ∈ c.trace) :
    .sessionStart a ∉ c.trace := by
  intro hstarted
  have hle : c.starts a + c.failures a ≤ 1 := by
    rw [starts_eq, failures_eq]
    refine (h.told.settled a).trans_le ?_
    split <;> omega
  have hpos : 0 < c.starts a := List.count_pos_iff.mpr hstarted
  have hpos' : 0 < c.failures a := List.count_pos_iff.mpr hfailed
  omega

theorem started_of_connected (h : c.Lives) (hs : c.status = .connected) :
    .sessionStart c.link ∈ c.trace := by
  have hin : c.outline.stage.inSession = true := by
    rw [Outline.stage, show c.outline.status = .connected from hs]
    rfl
  have hended : c.ends c.link + (if c.link = c.link ∧ c.outline.stage.inSession then 1 else 0) =
      c.starts c.link := by
    rw [starts_eq, ends_eq]
    exact h.told.ended c.link
  rw [if_pos ⟨rfl, hin⟩] at hended
  exact List.count_pos_iff.mp (Nat.lt_of_lt_of_eq (Nat.succ_pos _) hended)

theorem Lives.orderly (h : c.Lives) (hfifo : c.Fifo) : c.Orderly where
  settled a := by
    rw [starts_eq, failures_eq, settled_iff h.told]
    have hsettled := h.told.settled a
    constructor
    · intro hs
      exact hsettled.trans (if_pos hs)
    · intro hs
      exact hsettled.trans (if_neg hs)
  finished a := by
    rw [disconnections_eq, over_iff h.told]
    have hfinished := h.told.finished a
    constructor
    · intro ho
      exact hfinished.trans (if_pos ho)
    · intro ho
      exact hfinished.trans (if_neg ho)
  ended a := by
    have hends : c.ends a + (if a = c.link ∧ c.outline.stage.inSession then 1 else 0) =
        c.starts a := by
      rw [starts_eq, ends_eq]
      exact h.told.ended a
    have hsession : c.session = if c.outline.stage.inSession then some c.link else none :=
      h.sound.session
    constructor
    · intro ha
      rw [ha] at hsession
      split at hsession
      · rename_i hin
        obtain rfl := Option.some.inj hsession
        rw [if_pos ⟨rfl, hin⟩] at hends
        have hle : c.starts c.link + c.failures c.link ≤ 1 := by
          rw [starts_eq, failures_eq]
          refine (h.told.settled c.link).trans_le ?_
          split <;> omega
        omega
      · cases hsession
    · intro ha
      rw [if_neg] at hends
      · exact hends
      · rintro ⟨rfl, hin⟩
        rw [if_pos hin] at hsession
        exact ha hsession
  delivered := hfifo
  connected pre mid post hsplit hmid := by
    have hshown := (Log.turns_filterMap c.trace).mp h.told.connections
    have hconnected : (fun shown : Shown => shown.notice?.any Notice.isConnected) =
        fun shown => shown.queued?.any Queued.isConnected := by
      funext shown
      rcases shown with _ | _ | _ | (_ | _ | _ | _ | _) | _ | _ | _ | _ | _ | _ <;> rfl
    have hdisconnected : (fun shown : Shown => shown.notice?.any Notice.isDisconnected) =
        fun shown => shown.queued?.any Queued.isDisconnected := by
      funext shown
      rcases shown with _ | _ | _ | (_ | _ | _ | _ | _) | _ | _ | _ | _ | _ | _ <;> rfl
    rw [hconnected, hdisconnected, ← Log.turns_filterMap] at hshown
    have hqueued : Log.Turns Queued.isConnected Queued.isDisconnected
        (c.deliveredLog ++ c.queue) := by
      rw [hfifo]
      exact hshown
    exact Log.Turns.count_le_one (Log.Founded.of_append hqueued) pre mid post hsplit hmid
  sessions pre a mid b post hsplit hmid := by
    have hstarted : (fun shown : Shown => shown.notice?.any Notice.isStarted) =
        Shown.isSessionStart := by
      funext shown
      rcases shown with _ | _ | _ | (_ | _ | _ | _ | _) | _ | _ | _ | _ | _ | _ <;> rfl
    have hended : (fun shown : Shown => shown.notice?.any Notice.isEnded) =
        Shown.isSessionEnd := by
      funext shown
      rcases shown with _ | _ | _ | (_ | _ | _ | _ | _) | _ | _ | _ | _ | _ | _ <;> rfl
    have hstarts := (Log.turns_filterMap c.trace).mp h.told.starts
    have hends := (Log.turns_filterMap c.trace).mp h.told.ends
    rw [hstarted, hended] at hstarts hends
    exact Log.count_eq_one hstarts hends pre mid post hsplit rfl rfl hmid

/-- **Every attempt is settled once and comes to one `disconnected`, and sessions start and
end in turn**, whatever the callers, the server, the socket and the loop do, in whatever
order. -/
theorem attempts_orderly (reconnect : Option ReconnectOptions) (addressable : Bool)
    (es : List Event) : (run step (new reconnect addressable) es).Orderly := by
  exact (lives_run reconnect addressable es).orderly (fifo_run reconnect addressable es)

end Lifecycle

end Teamspeak.Client
