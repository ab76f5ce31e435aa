import Teamspeak.Client.Deliveries
import Teamspeak.Client.View.Revision

/-!
# Deliveries in order, and the view announced

* `Feeds c c'`: what calls and packets do to the queue; they add to its end, and a drain is
  scheduled where the queue or the view has anything new.
* `Orderly c`: one delivery after another, in the order they were queued.
* `Told c`: where no drain is to come, the view has nothing to announce.
* `deliveries_inOrder`: **deliveries run in order, once and one at a time; and as long as no
  middleware throws out of the last one with a revision still to announce, the last revision
  announced is the view's whenever no drain is scheduled or running.**
-/

namespace Teamspeak.Client

namespace ViewStore

variable {ε : Type*} {s : ViewStore ε}

/-- There is nothing to announce. -/
def Quiet (s : ViewStore ε) : Prop := s.announce.2 = none

instance (s : ViewStore ε) : Decidable s.Quiet := inferInstanceAs (Decidable (_ = none))

theorem quiet_iff :
    s.Quiet ↔ s.status = .loading ∨ s.status = .empty ∨ s.revision = s.announced := by
  unfold Quiet announce
  split
  · rename_i h
    rw [← or_assoc]
    exact ⟨fun _ => .inl h, fun _ => rfl⟩
  · rename_i h
    rw [← or_assoc]
    split
    · rename_i hr
      exact ⟨fun _ => .inr hr, fun _ => rfl⟩
    · rename_i hr
      exact ⟨nofun, fun h' => (h'.elim h hr).elim⟩

theorem announce_of_quiet (h : s.Quiet) : s.announce = (s, none) := by
  rw [quiet_iff, ← or_assoc] at h
  rw [announce]
  split
  · rfl
  · rename_i hn
    rw [if_pos (h.resolve_left hn)]

theorem announce_of_some {revision : Nat} (h : s.announce.2 = some revision) :
    (s.announce.1).revision = revision ∧ (s.announce.1).announced = revision ∧
      (s.announce.1).status = s.status := by
  rw [announce] at h ⊢
  split at h
  · cases h
  · rename_i hs
    rw [if_neg hs]
    split at h
    · cases h
    · rename_i hr
      rw [if_neg hr]
      cases h
      exact ⟨rfl, rfl, rfl⟩

/-- The status and the revision announced are as they were. -/
structure Same (s t : ViewStore ε) : Prop where
  status : t.status = s.status
  announced : t.announced = s.announced

theorem Same.refl (s : ViewStore ε) : Same s s := ⟨rfl, rfl⟩

theorem Same.trans {t u : ViewStore ε} (h : Same s t) (h' : Same t u) : Same s u :=
  ⟨h'.status.trans h.status, h'.announced.trans h.announced⟩

theorem same_rosterDelete (s : ViewStore ε) (id : Nat) : Same s (s.rosterDelete id) := by
  rw [rosterDelete]
  split <;> exact ⟨rfl, rfl⟩

theorem same_rosterClear (s : ViewStore ε) : Same s s.rosterClear := by
  rw [rosterClear]
  split <;> exact ⟨rfl, rfl⟩

theorem same_dropChannel (s : ViewStore ε) (self : Nat) (channelID : ChannelID) :
    Same s (s.dropChannel self channelID) := by
  rw [dropChannel]
  generalize s.clients.entries = entries
  induction entries generalizing s with
  | nil => exact .refl s
  | cons client entries ih =>
    obtain ⟨id, entry⟩ := client
    rw [List.foldl_cons]
    refine Same.trans ?_ (ih _)
    dsimp only
    split
    · exact same_rosterDelete s id
    · exact .refl s

theorem same_change (s : ViewStore ε) (event : ChannelTree.Event) : Same s (s.change event) := by
  rw [change]
  split
  · exact .refl s
  · split <;> exact ⟨rfl, rfl⟩

theorem same_setServerGroups (s : ViewStore ε) (groups : List Group) :
    Same s (s.setServerGroups groups) := by
  simp only [setServerGroups, setServerGroupMap, bump]
  split_ifs <;> exact ⟨rfl, rfl⟩

theorem same_setChannelGroups (s : ViewStore ε) (groups : List Group) :
    Same s (s.setChannelGroups groups) := by
  simp only [setChannelGroups, setChannelGroupMap, bump]
  split_ifs <;> exact ⟨rfl, rfl⟩

theorem same_mergeEntries (s : ViewStore ε) (entries : List (Str × Str)) :
    Same s (s.mergeEntries entries) := by
  simp only [mergeEntries, setServerRecord, bump]
  split_ifs <;> exact ⟨rfl, rfl⟩

theorem same_collect (s : ViewStore ε) (row : Channel) : Same s (s.collect row) := by
  rw [collect]
  split <;> exact ⟨rfl, rfl⟩

theorem same_step {op : Op ε} (h : VoiceClient.ofServer op = true) : Same s (s.step op) := by
  cases op with
  | collect row => exact same_collect s row
  | change event => exact same_change s event
  | rosterSet id entry => exact ⟨rfl, rfl⟩
  | rosterDelete id => exact same_rosterDelete s id
  | dropChannel self channelID => exact same_dropChannel s self channelID
  | setServerGroups groups => exact same_setServerGroups s groups
  | setChannelGroups groups => exact same_setChannelGroups s groups
  | seedServer params => exact same_mergeEntries s _
  | patchServer changes => exact same_mergeEntries s _
  | mergeServer params => exact same_mergeEntries s _
  | reset | finish | rosterClear | end_ | whenReady | giveUp | announce | readChannels
  | readClients => cases h

theorem announced_reset (s : ViewStore ε) : s.reset.announced = s.announced :=
  (same_rosterClear s).announced

theorem announced_end_ (s : ViewStore ε) (cause : Cause ε) :
    (s.end_ cause).announced = s.announced := by
  rw [end_]
  split <;> rfl

theorem status_end_ (s : ViewStore ε) (cause : Cause ε) :
    (s.end_ cause).status = .stale ∨ (s.status = .empty ∧ (s.end_ cause).status = .empty) := by
  rw [end_]
  split
  · rename_i h
    cases hs : s.status with
    | loading => exact absurd hs h.1
    | live => exact absurd hs h.2
    | stale => exact .inl rfl
    | empty => exact .inr ⟨rfl, rfl⟩
  · exact .inl rfl

/-- A store that ends has either ended before, or is at another revision. -/
theorem revision_end_ (s : ViewStore ε) (cause : Cause ε) :
    s.end_ cause = s ∨ (s.end_ cause).revision = s.revision + 1 := by
  rw [end_]
  split
  · exact .inl rfl
  · exact .inr rfl

/-- The welcome finishes at the revision it announces, or leaves the revision as it was. -/
theorem finish_cases (s : ViewStore ε) :
    (s.finish.2 = none ∧ Same s s.finish.1 ∧ s.finish.1.revision = s.revision) ∨
      (s.finish.2 = some (s.revision + 1) ∧ s.finish.1.status = .live ∧
        s.finish.1.revision = s.revision + 1 ∧ s.finish.1.announced = s.revision + 1) := by
  rw [finish]
  split
  · exact .inl ⟨rfl, .refl s, rfl⟩
  · dsimp only
    split
    · exact .inl ⟨rfl, ⟨rfl, rfl⟩, rfl⟩
    · exact .inr ⟨rfl, rfl, rfl, rfl⟩

end ViewStore

/-- The delivery a drain is at. -/
def Running.current {α : Type*} : Running α → List Nat
  | .delivering delivery => [delivery.id]
  | _ => []

namespace VoiceClient

open ViewStore

variable {ε α : Type*} {c c' c'' : VoiceClient ε α}

/-! ### What is told -/

/-- The revision told last once the queue has been delivered, or 0. -/
def lastTold (c : VoiceClient ε α) : Nat :=
  ((c.announcements ++ c.queue.filterMap fun d => d.payload.revision?).getLast?).getD 0

/-- What an operation does to the queue. -/
structure Queues (c c' : VoiceClient ε α) : Prop where
  running : c'.running = c.running
  marks : c'.marks = c.marks
  announcements : c'.announcements = c.announcements
  queue : ∃ more, c'.queue = c.queue ++ more ∧
    more.map Delivery.id = List.range' c.queued more.length ∧
    c'.queued = c.queued + more.length
  draining : c.draining = true → c'.draining = true ∧ c'.immediates = c.immediates
  idle : c.draining = false →
    (c'.draining = true ∧ c'.immediates = c.immediates + 1) ∨
      (c'.draining = false ∧ c'.immediates = c.immediates ∧ c'.queue = c.queue ∧
        (c.view.Quiet → c'.view.Quiet))

/-- An operation that keeps the revision the view takes as announced the last one told. -/
structure Feeds (c c' : VoiceClient ε α) : Prop extends Queues c c' where
  told : c.lastTold = c.view.announced → c'.lastTold = c'.view.announced

theorem Queues.trans (h : Queues c c') (h' : Queues c' c'') : Queues c c'' where
  running := h'.running.trans h.running
  marks := h'.marks.trans h.marks
  announcements := h'.announcements.trans h.announcements
  queue := by
    obtain ⟨more, hq, hids, hn⟩ := h.queue
    obtain ⟨more', hq', hids', hn'⟩ := h'.queue
    refine ⟨more ++ more', by rw [hq', hq, List.append_assoc], ?_, ?_⟩
    · rw [List.map_append, hids, hids', hn, List.length_append, List.range'_append_1]
    · rw [hn', hn, List.length_append, Nat.add_assoc]
  draining hd :=
    have hd' := h.draining hd
    have hd'' := h'.draining hd'.1
    ⟨hd''.1, hd''.2.trans hd'.2⟩
  idle hd := by
    rcases h.idle hd with ⟨hd', hi'⟩ | ⟨hd', hi', hq, hv⟩
    · have hd'' := h'.draining hd'
      exact .inl ⟨hd''.1, hd''.2.trans hi'⟩
    · rcases h'.idle hd' with ⟨hd'', hi''⟩ | ⟨hd'', hi'', hq', hv'⟩
      · exact .inl ⟨hd'', by rw [hi'', hi']⟩
      · exact .inr ⟨hd'', hi''.trans hi', hq'.trans hq, hv' ∘ hv⟩

theorem Feeds.trans (h : Feeds c c') (h' : Feeds c' c'') : Feeds c c'' :=
  ⟨h.toQueues.trans h'.toQueues, h'.told ∘ h.told⟩

/-- The fields that are not the connection's. -/
def beside (c : VoiceClient ε α) :
    Running α × List Mark × List Nat × List (Delivery α) × Nat × ViewStore ε × Bool × Nat :=
  (c.running, c.marks, c.announcements, c.queue, c.queued, c.view, c.draining, c.immediates)

theorem feeds_of_beside (h : c'.beside = c.beside) : Feeds c c' := by
  simp only [beside, Prod.mk.injEq] at h
  obtain ⟨hr, hm, ha, hq, hn, hv, hd, hi⟩ := h
  exact
    { running := hr
      marks := hm
      announcements := ha
      queue := ⟨[], by simp [hq, hn]⟩
      draining := fun h => ⟨hd.trans h, hi⟩
      idle := fun h => .inr ⟨hd.trans h, hi, hq, by rw [hv]; exact id⟩
      told := by simp [lastTold, ha, hq, hv] }

theorem Feeds.refl (c : VoiceClient ε α) : Feeds c c :=
  feeds_of_beside rfl

/-- The view changes, and a drain is scheduled unless that leaves nothing to announce. -/
theorem queues_view (c : VoiceClient ε α) (view : ViewStore ε) (notify : Bool)
    (hq : notify = false → c.view.Quiet → view.Quiet) :
    Queues c (if notify then scheduleDrain { c with view } else { c with view }) := by
  rw [scheduleDrain]
  split
  · split
    · rename_i hd
      exact ⟨rfl, rfl, rfl, ⟨[], by simp⟩, fun h => ⟨h, rfl⟩,
        fun h => absurd (h.symm.trans hd) nofun⟩
    · rename_i hd
      exact ⟨rfl, rfl, rfl, ⟨[], by simp⟩, fun h => absurd h hd, fun _ => .inl ⟨rfl, rfl⟩⟩
  · rename_i hn
    exact ⟨rfl, rfl, rfl, ⟨[], by simp⟩, fun h => ⟨h, rfl⟩,
      fun h => .inr ⟨h, rfl, rfl, hq (Bool.eq_false_iff.mpr hn)⟩⟩

theorem queues_enqueue (c : VoiceClient ε α) (payload : Payload α) :
    Queues c (c.enqueue payload) := by
  have hq : ∃ more, c.queue ++ [⟨c.queued, payload⟩] = c.queue ++ more ∧
      more.map Delivery.id = List.range' c.queued more.length ∧
      c.queued + 1 = c.queued + more.length := ⟨_, rfl, rfl, rfl⟩
  rw [enqueue, scheduleDrain]
  split
  · rename_i hd
    exact ⟨rfl, rfl, rfl, hq, fun h => ⟨h, rfl⟩, fun h => absurd (h.symm.trans hd) nofun⟩
  · rename_i hd
    exact ⟨rfl, rfl, rfl, hq, fun h => absurd h hd, fun _ => .inl ⟨rfl, rfl⟩⟩

@[simp] theorem view_scheduleDrain (c : VoiceClient ε α) : c.scheduleDrain.view = c.view := by
  rw [scheduleDrain]
  split <;> rfl

@[simp] theorem view_enqueue (c : VoiceClient ε α) (payload : Payload α) :
    (c.enqueue payload).view = c.view := view_scheduleDrain _

@[simp] theorem view_updateView (c : VoiceClient ε α) (op : ViewStore.Op ε) :
    (c.updateView op).view = c.view.step op := by
  rw [updateView]
  split
  · exact view_scheduleDrain _
  · rfl

theorem lastTold_scheduleDrain (c : VoiceClient ε α) : c.scheduleDrain.lastTold = c.lastTold := by
  rw [scheduleDrain]
  split <;> rfl

theorem lastTold_enqueue (c : VoiceClient ε α) (payload : Payload α) :
    (c.enqueue payload).lastTold = payload.revision?.getD c.lastTold := by
  rw [enqueue, lastTold_scheduleDrain, lastTold, lastTold, List.filterMap_append,
    ← List.append_assoc]
  cases payload with
  | viewReady revision =>
    have h : [(⟨c.queued, .viewReady revision⟩ : Delivery α)].filterMap
        (fun d => d.payload.revision?) = [revision] := rfl
    rw [h, List.getLast?_concat]
    rfl
  | serverEvent | connected | kicked | disconnected =>
    simp [Payload.revision?]

theorem lastTold_updateView (c : VoiceClient ε α) (op : ViewStore.Op ε) :
    (c.updateView op).lastTold = c.lastTold := by
  rw [updateView]
  split
  · exact lastTold_scheduleDrain _
  · rfl

theorem Feeds.enqueue (h : Feeds c c') (payload : Payload α) (hp : payload.revision? = none) :
    Feeds c (c'.enqueue payload) := by
  refine h.trans ⟨queues_enqueue c' payload, fun ht => ?_⟩
  rw [lastTold_enqueue, hp, Option.getD_none, ht, view_enqueue]

theorem Feeds.updateView (h : Feeds c c') {op : ViewStore.Op ε}
    (ha : (c'.view.step op).announced = c'.view.announced)
    (hq : notifies c'.view op = false → c'.view.Quiet → (c'.view.step op).Quiet) :
    Feeds c (c'.updateView op) := by
  refine h.trans ⟨queues_view c' _ _ hq, fun ht => ?_⟩
  rw [lastTold_updateView, ht, view_updateView, ha]

/-! ### Each operation -/

/-- A store that is given no notice, and whose status and announced revision are as they
were, is as quiet as it was. -/
theorem quiet_of_same {s t : ViewStore ε} (h : Same s t)
    (hn : ¬(t.revision ≠ s.revision ∧ t.status ≠ .loading)) (hq : s.Quiet) : t.Quiet := by
  rw [quiet_iff] at hq ⊢
  by_cases hl : t.status = .loading
  · exact .inl hl
  · have hr : t.revision = s.revision := by
      by_contra hr
      exact hn ⟨hr, hl⟩
    rw [hr, h.announced, h.status]
    exact hq

theorem notifies_eq_false {view : ViewStore ε} {op : ViewStore.Op ε} (h : notifies view op = false)
    (hop : op ≠ .reset) :
    ¬((view.step op).revision ≠ view.revision ∧ (view.step op).status ≠ .loading) := by
  cases op with
  | reset => exact absurd rfl hop
  | _ => exact of_decide_eq_false h

theorem ne_reset_of_ofServer {op : ViewStore.Op ε} (h : ofServer op = true) : op ≠ .reset := by
  rintro rfl
  cases h

theorem Feeds.server (h : Feeds c c') {op : ViewStore.Op ε} (hop : ofServer op = true) :
    Feeds c (c'.updateView op) :=
  h.updateView (same_step hop).announced fun hn =>
    quiet_of_same (same_step hop) (notifies_eq_false hn (ne_reset_of_ofServer hop))

theorem Feeds.reset (h : Feeds c c') : Feeds c (c'.updateView .reset) :=
  h.updateView (announced_reset c'.view) fun _ _ => quiet_iff.mpr (.inl rfl)

theorem Feeds.end_ (h : Feeds c c') (cause : Cause ε) : Feeds c (c'.updateView (.end_ cause)) := by
  refine h.updateView (announced_end_ c'.view cause) fun hn hq => ?_
  have hn := notifies_eq_false hn nofun
  change ¬((c'.view.end_ cause).revision ≠ _ ∧ (c'.view.end_ cause).status ≠ _) at hn
  change (c'.view.end_ cause).Quiet
  rcases c'.view.revision_end_ cause with he | he
  · rwa [he]
  · rcases c'.view.status_end_ cause with hs | ⟨-, hs⟩
    · rw [he, hs] at hn
      exact absurd ⟨Nat.succ_ne_self _, nofun⟩ hn
    · exact quiet_iff.mpr (.inr (.inl hs))

theorem Feeds.announceDisconnected (h : Feeds c c') : Feeds c c'.announceDisconnected := by
  refine Feeds.enqueue ?_ .disconnected rfl
  exact h.trans (feeds_of_beside rfl)

theorem feeds_connect (c : VoiceClient ε α) (signal : Bool) : Feeds c (c.connect signal) := by
  rw [connect]
  split
  · exact .refl c
  · exact Feeds.reset (feeds_of_beside rfl)

theorem feeds_failConnection (c : VoiceClient ε α) (cause : Cause ε) :
    Feeds c (c.failConnection cause) := by
  rw [failConnection]
  split
  · exact .refl c
  · have h : Feeds c (VoiceClient.updateView
        { c with settled := true, pending := c.pending && c.settled } (.end_ cause)) := by
      refine Feeds.end_ ?_ cause
      exact feeds_of_beside rfl
    dsimp only
    split
    · exact h
    · exact Feeds.announceDisconnected (h.trans (feeds_of_beside rfl))

theorem feeds_abort (c : VoiceClient ε α) (cause : Cause ε) : Feeds c (c.abort cause) := by
  rw [abort]
  split
  · exact feeds_failConnection c cause
  · exact .refl c

theorem Feeds.leave (h : Feeds c c') : Feeds c c'.leave := (h.end_ _).announceDisconnected

theorem feeds_disconnect (c : VoiceClient ε α) : Feeds c c.disconnect := by
  rw [disconnect]
  split
  · exact .refl c
  · dsimp only
    split
    · exact feeds_of_beside rfl
    · exact Feeds.leave (feeds_of_beside rfl)

theorem feeds_called (c : VoiceClient ε α) (call : Call ε) : Feeds c (c.called call) := by
  cases call with
  | connect signal => exact feeds_connect c signal
  | disconnect => exact feeds_disconnect c
  | abort cause => exact feeds_abort c cause

theorem feeds_markConnected (c : VoiceClient ε α) : Feeds c c.markConnected := by
  rw [markConnected]
  split
  · exact .refl c
  · refine Feeds.enqueue ?_ .connected rfl
    exact feeds_of_beside rfl

theorem feeds_connectionClosed (c : VoiceClient ε α) (cause : Cause ε) :
    Feeds c (c.connectionClosed cause) := by
  rw [connectionClosed]
  split
  · exact .refl c
  · exact feeds_failConnection c cause
  · refine Feeds.announceDisconnected (Feeds.end_ ?_ cause)
    exact feeds_of_beside rfl

theorem feeds_welcomeFinished (c : VoiceClient ε α) : Feeds c c.welcomeFinished := by
  rw [welcomeFinished]
  split
  · rcases c.view.finish_cases with ⟨he, hs, hr⟩ | ⟨he, hs, hr, ha⟩
    · rw [he]
      refine (Feeds.refl c).updateView hs.announced fun _ => ?_
      exact quiet_of_same hs fun h => h.1 hr
    · rw [he]
      have hq : Queues c (c.updateView .finish) := queues_view c _ _ fun _ _ =>
        quiet_iff.mpr (.inr (.inr (hr.trans ha.symm)))
      refine ⟨hq.trans (queues_enqueue _ _), fun _ => ?_⟩
      rw [lastTold_enqueue, view_enqueue, view_updateView]
      exact ha.symm
  · exact .refl c

theorem feeds_happened (c : VoiceClient ε α) (happening : Happening ε α) :
    Feeds c (c.happened happening) := by
  cases happening with
  | view op =>
    rw [happened]
    split
    · rename_i h
      exact (Feeds.refl c).server h
    · exact .refl c
  | serverEvent event => exact (Feeds.refl c).enqueue _ rfl
  | kicked => exact (Feeds.refl c).enqueue _ rfl
  | welcomeFinished => exact feeds_welcomeFinished c
  | cryptoInit => exact feeds_of_beside rfl
  | markConnected => exact feeds_markConnected c
  | failConnection cause => exact feeds_failConnection c cause
  | connectionClosed cause => exact feeds_connectionClosed c cause
  | goodbyeEnded =>
    rw [happened]
    split
    · exact Feeds.leave (feeds_of_beside rfl)
    · exact .refl c
  | left =>
    rw [happened]
    split
    · exact feeds_of_beside rfl
    · exact .refl c
  | delivered => exact feeds_of_beside rfl
  | resumed =>
    rw [happened]
    split
    · exact .refl c
    · exact feeds_of_beside rfl

/-! ### The connection and the view -/

/-- What the status of the connection says of the view. -/
structure Held (c : VoiceClient ε α) : Prop where
  linked : c.view.Linked
  positive : c.view.status = .empty ∨ 0 < c.view.revision
  pending : c.pending = true → c.status ≠ .connected ∧ c.view.status ≠ .live
  listening : c.running ≠ .nothing → c.listening = true → c.view.status ≠ .live

theorem held_new : Held (new : VoiceClient ε α) where
  linked := linked_new
  positive := .inl rfl
  pending _ := ⟨nofun, nofun⟩
  listening h := absurd rfl h

theorem positive_step {s : ViewStore ε} (h : s.Linked) (hp : s.status = .empty ∨ 0 < s.revision)
    (op : ViewStore.Op ε) : (s.step op).status = .empty ∨ 0 < (s.step op).revision := by
  have hf := (follows_step h op).later
  rcases hp with hs | hr
  · rcases Nat.eq_zero_or_pos (s.step op).revision with h0 | h0
    · have hsame := hf.same (h0.trans (Nat.le_zero.mp (h0 ▸ hf.le)).symm)
      exact .inl ((congrArg Facts.status hsame).trans hs)
    · exact .inr h0
  · exact .inr (hr.trans_le hf.le)

theorem Held.scheduleDrain (h : Held c) : Held c.scheduleDrain := by
  rw [VoiceClient.scheduleDrain]
  split
  · exact h
  · exact ⟨h.linked, h.positive, h.pending, h.listening⟩

theorem Held.enqueue (h : Held c) (payload : Payload α) : Held (c.enqueue payload) := by
  refine Held.scheduleDrain ?_
  exact ⟨h.linked, h.positive, h.pending, h.listening⟩

theorem held_updateView {op : ViewStore.Op ε} (hl : c.view.Linked)
    (hp : c.view.status = .empty ∨ 0 < c.view.revision)
    (pending : c.pending = true → c.status ≠ .connected ∧ (c.view.step op).status ≠ .live)
    (listening : c.running ≠ .nothing → c.listening = true → (c.view.step op).status ≠ .live) :
    Held (c.updateView op) := by
  have h : Held { c with view := c.view.step op } :=
    ⟨(follows_step hl op).linked, positive_step hl hp op, pending, listening⟩
  rw [updateView]
  split
  · exact h.scheduleDrain
  · exact h

theorem not_live_end_ (s : ViewStore ε) (cause : Cause ε) : (s.end_ cause).status ≠ .live := by
  rcases s.status_end_ cause with h | ⟨-, h⟩ <;> simp [h]

theorem Held.end_ (h : Held c) (cause : Cause ε) : Held (c.updateView (.end_ cause)) :=
  held_updateView h.linked h.positive (fun hp => ⟨(h.pending hp).1, not_live_end_ _ _⟩)
    fun _ _ => not_live_end_ _ _

theorem Held.disconnected (h : Held c) : Held { c with status := .disconnected } :=
  ⟨h.linked, h.positive, fun hp => ⟨nofun, (h.pending hp).2⟩, h.listening⟩

theorem Held.announceDisconnected (h : Held c) : Held c.announceDisconnected := by
  refine Held.enqueue ?_ _
  exact ⟨h.linked, h.positive, h.pending, h.listening⟩

theorem Held.connect (h : Held c) (signal : Bool) : Held (c.connect signal) := by
  rw [VoiceClient.connect]
  split
  · exact h
  · exact held_updateView h.linked h.positive (fun _ => ⟨nofun, nofun⟩) fun _ _ => nofun

theorem Held.failConnection (h : Held c) (cause : Cause ε) : Held (c.failConnection cause) := by
  rw [VoiceClient.failConnection]
  split
  · exact h
  · have hf : Held (VoiceClient.updateView
        { c with settled := true, pending := c.pending && c.settled } (.end_ cause)) := by
      refine Held.end_ ?_ cause
      exact ⟨h.linked, h.positive, fun hp => h.pending (Bool.and_elim_left hp), h.listening⟩
    dsimp only
    split
    · exact hf
    · exact hf.disconnected.announceDisconnected

theorem Held.leave (h : Held c) : Held c.leave := (h.end_ _).announceDisconnected

theorem Held.disconnect (h : Held c) : Held c.disconnect := by
  have hd := h.disconnected
  rw [VoiceClient.disconnect]
  split
  · exact h
  · dsimp only
    split
    · exact ⟨hd.linked, hd.positive, hd.pending, hd.listening⟩
    · refine Held.leave ?_
      exact ⟨hd.linked, hd.positive, hd.pending, hd.listening⟩

theorem Held.called (h : Held c) (call : Call ε) : Held (c.called call) := by
  cases call with
  | connect signal => exact h.connect signal
  | disconnect => exact h.disconnect
  | abort cause =>
    change Held (c.abort cause)
    rw [abort]
    split
    · exact h.failConnection cause
    · exact h

theorem Held.markConnected (h : Held c) (hr : c.running = .nothing) : Held c.markConnected := by
  rw [VoiceClient.markConnected]
  split
  · exact h
  · refine Held.enqueue ?_ _
    exact ⟨h.linked, h.positive, nofun, fun hn => absurd hr hn⟩

theorem Held.welcomeFinished (h : Held c) (hr : c.running = .nothing) :
    Held c.welcomeFinished := by
  rw [VoiceClient.welcomeFinished]
  split
  · rename_i hs
    -- The promise of a session's attempt has settled.
    have hp : ∀ hp : c.pending = true, c.status ≠ .connected ∧ c.view.finish.1.status ≠ .live :=
      fun hp => absurd hs (h.pending hp).1
    have hf : Held (c.updateView .finish) :=
      held_updateView h.linked h.positive hp fun hn => absurd hr hn
    split
    · exact hf.enqueue _
    · exact hf
  · exact h

theorem Held.connectionClosed (h : Held c) (cause : Cause ε) :
    Held (c.connectionClosed cause) := by
  rw [VoiceClient.connectionClosed]
  split
  · exact h
  · exact h.failConnection cause
  · exact (h.disconnected.end_ cause).announceDisconnected

theorem Held.happened (h : Held c) (hr : c.running = .nothing) (happening : Happening ε α) :
    Held (c.happened happening) := by
  cases happening with
  | view op =>
    rw [VoiceClient.happened]
    split
    · rename_i hop
      have hs := (same_step (s := c.view) hop).status
      refine held_updateView h.linked h.positive (fun hp => ⟨(h.pending hp).1, ?_⟩)
        fun hn => absurd hr hn
      rw [hs]
      exact (h.pending hp).2
    · exact h
  | serverEvent event => exact h.enqueue _
  | kicked => exact h.enqueue _
  | welcomeFinished => exact h.welcomeFinished hr
  | cryptoInit => exact ⟨h.linked, h.positive, h.pending, h.listening⟩
  | markConnected => exact h.markConnected hr
  | failConnection cause => exact h.failConnection cause
  | connectionClosed cause => exact h.connectionClosed cause
  | goodbyeEnded =>
    rw [VoiceClient.happened]
    split
    · refine Held.leave ?_
      exact ⟨h.linked, h.positive, h.pending, h.listening⟩
    · exact h
  | left =>
    rw [VoiceClient.happened]
    split
    · exact ⟨h.linked, h.positive, fun hp => h.pending (Bool.and_elim_left hp), h.listening⟩
    · exact h
  | delivered => exact ⟨h.linked, h.positive, h.pending, h.listening⟩
  | resumed =>
    rw [VoiceClient.happened]
    split
    · exact h
    · exact ⟨h.linked, h.positive, h.pending, nofun⟩

/-! ### One delivery after another -/

/-- That many deliveries, each begun and ended before the next. -/
def delivered (n : Nat) : List Mark := (List.range n).flatMap fun id => [.began id, .ended id]

theorem delivered_succ (n : Nat) : delivered (n + 1) = delivered n ++ [.began n] ++ [.ended n] := by
  rw [delivered, List.range_succ, List.flatMap_append]
  simp [delivered]

/-- So many deliveries have run, each once and before the next; the next runs or not, and
those after it wait in the order they were queued. -/
def InOrder (c : VoiceClient ε α) : Prop :=
  ∃ ended, c.marks = delivered ended ++ c.running.current.map .began ∧
    c.running.current ++ c.queue.map Delivery.id = List.range' ended (c.queued - ended) ∧
    ended ≤ c.queued

theorem Queues.inOrder (h : Queues c c') (hc : InOrder c) : InOrder c' := by
  obtain ⟨ended, hm, hq, hle⟩ := hc
  obtain ⟨more, hq', hids, hn⟩ := h.queue
  refine ⟨ended, by rw [h.marks, h.running, hm], ?_, hn ▸ Nat.le_add_right_of_le hle⟩
  have hlen : c.queued + more.length - ended = (c.queued - ended) + more.length := by omega
  have hstart : c.queued = ended + (c.queued - ended) := by omega
  rw [h.running, hq', List.map_append, ← List.append_assoc, hq, hids, hn, hlen,
    ← List.range'_append_1, ← hstart]

/-- A drain runs, or one is scheduled, or there is nothing to deliver. -/
structure Scheduled (c : VoiceClient ε α) : Prop where
  resting : c.running = .nothing → c.draining = false → c.immediates = 0 ∧ c.queue = []
  waiting : c.running = .nothing → c.draining = true → c.immediates = 1
  at_work : c.running ≠ .nothing → c.draining = true ∧ c.immediates = 0

theorem Queues.scheduled (h : Queues c c') (hc : Scheduled c) : Scheduled c' where
  resting hr hd := by
    rw [h.running] at hr
    cases hd' : c.draining with
    | true => exact absurd ((h.draining hd').1.symm.trans hd) nofun
    | false =>
      obtain ⟨hi, hq⟩ := hc.resting hr hd'
      rcases h.idle hd' with ⟨hd'', -⟩ | ⟨-, hi', hq', -⟩
      · exact absurd (hd''.symm.trans hd) nofun
      · exact ⟨hi'.trans hi, hq'.trans hq⟩
  waiting hr hd := by
    rw [h.running] at hr
    cases hd' : c.draining with
    | true => exact (h.draining hd').2.trans (hc.waiting hr hd')
    | false =>
      rcases h.idle hd' with ⟨-, hi⟩ | ⟨hd'', -⟩
      · rw [hi, (hc.resting hr hd').1]
      · exact absurd (hd''.symm.trans hd) nofun
  at_work hr := by
    rw [h.running] at hr
    obtain ⟨hd, hi⟩ := hc.at_work hr
    exact ⟨(h.draining hd).1, (h.draining hd).2.trans hi⟩

/-- What holds after every step. -/
structure Orderly (c : VoiceClient ε α) : Prop where
  held : Held c
  inOrder : InOrder c
  scheduled : Scheduled c
  told : c.lastTold = c.view.announced

/-- A drain between two deliveries. -/
structure Between (c : VoiceClient ε α) (ended : Nat) : Prop where
  held : Held c
  marks : c.marks = delivered ended
  queue : c.queue.map Delivery.id = List.range' ended (c.queued - ended)
  le : ended ≤ c.queued
  draining : c.draining = true
  immediates : c.immediates = 0
  told : c.lastTold = c.view.announced

theorem Between.leaveDrain {ended : Nat} (h : Between c ended) : Orderly c.leaveDrain := by
  rw [VoiceClient.leaveDrain]
  split
  · rename_i hq
    exact
      { held := ⟨h.held.linked, h.held.positive, h.held.pending, fun hn => absurd rfl hn⟩
        inOrder := ⟨ended, by rw [h.marks]; exact (List.append_nil _).symm, h.queue, h.le⟩
        scheduled := ⟨fun _ _ => ⟨h.immediates, hq⟩, nofun, fun hn => absurd rfl hn⟩
        told := h.told }
  · exact
      { held := ⟨h.held.linked, h.held.positive, h.held.pending, fun hn => absurd rfl hn⟩
        inOrder := ⟨ended, by rw [h.marks]; exact (List.append_nil _).symm, h.queue, h.le⟩
        scheduled := ⟨fun _ hd => absurd (h.draining.symm.trans hd) nofun,
          fun _ _ => congrArg (· + 1) h.immediates, fun hn => absurd rfl hn⟩
        told := h.told }

theorem Between.nextDelivery {ended : Nat} (h : Between c ended)
    (hl : c.listening = true → c.view.status ≠ .live) : Orderly c.nextDelivery := by
  rw [VoiceClient.nextDelivery]
  split
  · rename_i delivery queue hq
    have hids := h.queue
    rw [hq, List.map_cons] at hids
    exact
      { held := ⟨h.held.linked, h.held.positive, h.held.pending, fun _ => hl⟩
        inOrder := ⟨ended, by rw [h.marks]; rfl, hids, h.le⟩
        scheduled := ⟨nofun, nofun, fun _ => ⟨h.draining, h.immediates⟩⟩
        told := by
          rw [← h.told, lastTold, lastTold, hq, List.filterMap_cons]
          cases hr : delivery.payload.revision? <;> simp }
  · rename_i hq
    have hf := follows_announce h.held.linked
    split
    · rename_i revision hr
      obtain ⟨ha, hb, hs⟩ := announce_of_some hr
      exact
        { held := ⟨hf.linked, positive_step h.held.linked h.held.positive .announce,
            fun hp => ⟨(h.held.pending hp).1, hs ▸ (h.held.pending hp).2⟩,
            fun _ hn => hs ▸ hl hn⟩
          inOrder := ⟨ended, by rw [h.marks]; exact (List.append_nil _).symm, h.queue, h.le⟩
          scheduled := ⟨nofun, nofun, fun _ => ⟨h.draining, h.immediates⟩⟩
          told := by simp [lastTold, hq, hb] }
    · rename_i hr
      have hv : c.view.announce.1 = c.view := congrArg Prod.fst (announce_of_quiet hr)
      rw [hv]
      exact h.leaveDrain

theorem orderly_new : Orderly (new : VoiceClient ε α) where
  held := held_new
  inOrder := ⟨0, rfl, rfl, Nat.le_refl 0⟩
  scheduled := ⟨fun _ _ => ⟨rfl, rfl⟩, fun _ => nofun, fun h => absurd rfl h⟩
  told := rfl

theorem Orderly.feeds (h : Orderly c) (hf : Feeds c c') (hc : Held c') : Orderly c' :=
  ⟨hc, hf.inOrder h.inOrder, hf.scheduled h.scheduled, hf.told h.told⟩

/-- A delivery that a drain is at ends. -/
theorem Orderly.between {delivery : Delivery α} (h : Orderly c)
    (hr : c.running = .delivering delivery) :
    ∃ ended, Between { c with marks := c.marks ++ [.ended delivery.id] } ended := by
  obtain ⟨ended, hm, hq, hle⟩ := h.inOrder
  obtain ⟨hd, hi⟩ := h.scheduled.at_work (by rw [hr]; nofun)
  rw [hr] at hm hq
  change c.marks = delivered ended ++ [.began delivery.id] at hm
  change delivery.id :: c.queue.map Delivery.id = _ at hq
  have hlen : c.queued - ended = c.queue.length + 1 := by
    have := congrArg List.length hq
    simpa using this.symm
  rw [hlen, List.range'_succ, List.cons.injEq] at hq
  have hleft : c.queue.length = c.queued - (ended + 1) := by omega
  refine ⟨ended + 1, ⟨h.held.linked, h.held.positive, h.held.pending, h.held.listening⟩, ?_,
    hleft ▸ hq.2, by change ended + 1 ≤ c.queued; omega, hd, hi, h.told⟩
  change c.marks ++ [.ended delivery.id] = delivered (ended + 1)
  rw [hm, hq.1, delivered_succ]

theorem Orderly.announced {revision : Nat} (h : Orderly c) (hr : c.running = .announcing revision) :
    ∃ ended, Between c ended := by
  obtain ⟨ended, hm, hq, hle⟩ := h.inOrder
  obtain ⟨hd, hi⟩ := h.scheduled.at_work (by rw [hr]; nofun)
  rw [hr] at hm hq
  exact ⟨ended, h.held, hm.trans (List.append_nil _), hq, hle, hd, hi, h.told⟩

/-! ### Nothing left to announce -/

/-- What holds of a drain that delivers `viewChanged`, whatever its listeners call. -/
def Calm (c : VoiceClient ε α) : Prop :=
  c.queue ≠ [] ∨
    (c.view.revision = c.view.announced ∧ (c.view.status = .live ∨ c.view.status = .stale)) ∨
    (c.view.status = .loading ∧ c.status = .connecting ∧ c.cryptoInitComplete = false)

/-- A view with something to announce has a drain to come. -/
structure Told (c : VoiceClient ε α) : Prop where
  resting : c.draining = false → c.view.Quiet
  announcing : ∀ revision, c.running = .announcing revision → c.Calm

theorem queue_enqueue (c : VoiceClient ε α) (payload : Payload α) :
    (c.enqueue payload).queue = c.queue ++ [⟨c.queued, payload⟩] := by
  rw [enqueue, scheduleDrain]
  split <;> rfl

theorem calm_announceDisconnected (c : VoiceClient ε α) : c.announceDisconnected.Calm := by
  refine .inl ?_
  rw [announceDisconnected, queue_enqueue]
  exact List.concat_ne_nil _ _

theorem updateView_eq (c : VoiceClient ε α) (op : ViewStore.Op ε) : ∃ draining immediates,
    c.updateView op = { c with view := c.view.step op, draining, immediates } := by
  rw [updateView, scheduleDrain]
  split
  · split <;> exact ⟨_, _, rfl⟩
  · exact ⟨_, _, rfl⟩

theorem Calm.connect (h : c.Calm) (signal : Bool) : (c.connect signal).Calm := by
  rw [VoiceClient.connect]
  split
  · exact h
  · obtain ⟨d, i, he⟩ := updateView_eq
      { c with
        status := .connecting
        cryptoInitComplete := false
        settled := false
        pending := true
        listening := c.listening || signal } .reset
    rw [he]
    exact .inr (.inr ⟨rfl, rfl, rfl⟩)

theorem Calm.failConnection (h : c.Calm) (hl : c.view.status ≠ .live) (cause : Cause ε) :
    (c.failConnection cause).Calm := by
  unfold VoiceClient.failConnection
  split
  · exact h
  · dsimp only
    split
    · rename_i hs
      obtain ⟨d, i, he⟩ := updateView_eq
        { c with settled := true, pending := c.pending && c.settled } (.end_ cause)
      rw [he]
      rcases h with hq | ⟨hr, hv⟩ | ⟨-, hc, -⟩
      · exact .inl hq
      · have hv : c.view.status = .stale := hv.resolve_left hl
        have hsame : c.view.end_ cause = c.view := by simp [end_, hv]
        refine .inr (.inl ?_)
        change (c.view.end_ cause).revision = (c.view.end_ cause).announced ∧
          ((c.view.end_ cause).status = .live ∨ (c.view.end_ cause).status = .stale)
        rw [hsame]
        exact ⟨hr, .inr hv⟩
      · cases hc.symm.trans hs
    · exact calm_announceDisconnected _

theorem Calm.disconnect (h : c.Calm) : c.disconnect.Calm := by
  rw [VoiceClient.disconnect]
  split
  · exact h
  · dsimp only
    split
    · rename_i hs
      rcases h with hq | hv | ⟨-, hc, hi⟩
      · exact .inl hq
      · exact .inr (.inl hv)
      · simp [hc, hi] at hs
    · exact calm_announceDisconnected _

theorem Calm.called (h : c.Calm) (hl : c.listening = true → c.view.status ≠ .live)
    (call : Call ε) : (c.called call).Calm := by
  cases call with
  | connect signal => exact h.connect signal
  | disconnect => exact h.disconnect
  | abort cause =>
    change (c.abort cause).Calm
    rw [abort]
    split
    · rename_i hs
      exact h.failConnection (hl hs) cause
    · exact h

theorem Calm.quiet (h : c.Calm) (hq : c.queue = []) : c.view.Quiet := by
  rcases h with h | ⟨hr, -⟩ | ⟨hl, -⟩
  · exact absurd hq h
  · exact quiet_iff.mpr (.inr (.inr hr))
  · exact quiet_iff.mpr (.inl hl)

theorem Queues.told (h : Queues c c') (ht : Told c)
    (hc : ∀ revision, c.running = .announcing revision → c'.Calm) : Told c' where
  resting hd := by
    cases hd' : c.draining with
    | true => exact absurd ((h.draining hd').1.symm.trans hd) nofun
    | false =>
      rcases h.idle hd' with ⟨hd'', -⟩ | ⟨-, -, -, hv⟩
      · exact absurd (hd''.symm.trans hd) nofun
      · exact hv (ht.resting hd')
  announcing revision hr := hc revision (h.running ▸ hr)

theorem told_leaveDrain (hd : c.draining = true) (h : c.queue ≠ [] ∨ c.view.Quiet) :
    Told c.leaveDrain := by
  rw [leaveDrain]
  split
  · rename_i hq
    exact ⟨fun _ => h.resolve_left (not_not_intro hq), nofun⟩
  · exact ⟨fun hd' => absurd (hd.symm.trans hd') nofun, nofun⟩

theorem told_nextDelivery (hd : c.draining = true) : Told c.nextDelivery := by
  rw [nextDelivery]
  split
  · exact ⟨fun hd' => absurd (hd.symm.trans hd') nofun, nofun⟩
  · split
    · rename_i hr
      obtain ⟨ha, hb, hs⟩ := announce_of_some hr
      refine ⟨fun hd' => absurd (hd.symm.trans hd') nofun, fun _ _ => .inr (.inl ⟨?_, ?_⟩)⟩
      · exact ha.trans hb.symm
      · change c.view.announce.1.status = _ ∨ c.view.announce.1.status = _
        rw [hs]
        exact live_or_stale_of_announce hr
    · rename_i hr
      refine told_leaveDrain hd (.inr ?_)
      change c.view.announce.1.Quiet
      rw [announce_of_quiet hr]
      exact hr

/-! ### Runs -/

/-- No middleware throws out of the delivery that leaves the queue empty while the view has
a revision to announce. -/
def Clear (c : VoiceClient ε α) : ClientEvent ε α → Prop
  | .middlewareThrew =>
    match c.running with
    | .delivering ⟨_, .serverEvent _⟩ => c.queue ≠ [] ∨ c.view.Quiet
    | _ => True
  | _ => True

/-- Where no drain is scheduled or running, and the view is live or stale, the last revision
told is the view's. -/
def Announced (c : VoiceClient ε α) : Prop :=
  c.immediates = 0 → c.running = .nothing →
    c.view.status = .live ∨ c.view.status = .stale →
    c.announcements.getLast? = some c.view.revision

instance [DecidableEq α] (c : VoiceClient ε α) : Decidable c.Announced :=
  inferInstanceAs (Decidable (_ → _))

theorem orderly_drain (h : Orderly c) : Orderly c.drain := by
  rw [drain]
  split
  · rename_i hr
    split
    · exact h
    · rename_i hi
      rw [not_or] at hi
      have hd : c.draining = true := by
        by_contra hd
        exact hi.1 (h.scheduled.resting hr (Bool.eq_false_iff.mpr hd)).1
      obtain ⟨ended, hm, hq, hle⟩ := h.inOrder
      rw [hr] at hm hq
      have hb : Between { c with immediates := c.immediates - 1 } ended :=
        { held := ⟨h.held.linked, h.held.positive, h.held.pending, h.held.listening⟩
          marks := hm.trans (List.append_nil _)
          queue := hq
          le := hle
          draining := hd
          immediates := by rw [h.scheduled.waiting hr hd]
          told := h.told }
      refine hb.nextDelivery fun hl => ?_
      have hp : c.pending = true := by
        by_contra hp
        exact hi.2 ⟨hl, hp⟩
      exact (h.held.pending hp).2
  · exact h

theorem orderly_step (h : Orderly c) (event : ClientEvent ε α) : Orderly (c.step event) := by
  cases event with
  | call call => exact h.feeds (feeds_called c call) (h.held.called call)
  | happens happening =>
    rw [step]
    split
    · rename_i hr
      exact h.feeds (feeds_happened c happening) (h.held.happened hr happening)
    · exact h
  | immediate => exact orderly_drain h
  | returned =>
    change Orderly c.returned
    rw [returned]
    split
    · exact h
    · rename_i hr
      obtain ⟨ended, hb⟩ := h.between hr
      exact hb.nextDelivery (h.held.listening (by rw [hr]; nofun))
    · rename_i hr
      obtain ⟨ended, hb⟩ := h.announced hr
      exact hb.leaveDrain
  | middlewareThrew =>
    change Orderly c.middlewareThrew
    rw [middlewareThrew]
    split
    · rename_i hr
      obtain ⟨ended, hb⟩ := h.between hr
      exact hb.leaveDrain
    · exact h

theorem told_step (h : Orderly c) (ht : Told c) {event : ClientEvent ε α} (hc : Clear c event) :
    Told (c.step event) := by
  cases event with
  | call call =>
    refine (feeds_called c call).toQueues.told ht fun revision hr => ?_
    exact (ht.announcing revision hr).called (h.held.listening (by rw [hr]; nofun)) call
  | happens happening =>
    rw [step]
    split
    · rename_i hr
      refine (feeds_happened c happening).toQueues.told ht fun revision hr' => ?_
      exact absurd (hr.symm.trans hr') nofun
    · exact ht
  | immediate =>
    change Told c.drain
    rw [drain]
    split
    · rename_i hr
      split
      · exact ht
      · rename_i hi
        rw [not_or] at hi
        refine told_nextDelivery ?_
        by_contra hd
        exact hi.1 (h.scheduled.resting hr (Bool.eq_false_iff.mpr hd)).1
    · exact ht
  | returned =>
    change Told c.returned
    rw [returned]
    split
    · exact ht
    · rename_i hr
      exact told_nextDelivery (h.scheduled.at_work (by rw [hr]; nofun)).1
    · rename_i revision hr
      refine told_leaveDrain (h.scheduled.at_work (by rw [hr]; nofun)).1 ?_
      by_cases hq : c.queue = []
      · exact .inr ((ht.announcing revision hr).quiet hq)
      · exact .inl hq
  | middlewareThrew =>
    change Told c.middlewareThrew
    rw [middlewareThrew]
    split
    · rename_i hr
      rw [Clear, hr] at hc
      exact told_leaveDrain (h.scheduled.at_work (by rw [hr]; nofun)).1 hc
    · exact ht

theorem Orderly.getLast? (h : Orderly c) (hq : c.queue = []) :
    c.announcements.getLast?.getD 0 = c.view.announced := by
  have ht := h.told
  rwa [lastTold, hq, List.filterMap_nil, List.append_nil] at ht

theorem Orderly.queue_eq_nil (h : Orderly c) (hi : c.immediates = 0) (hr : c.running = .nothing) :
    c.draining = false ∧ c.queue = [] := by
  cases hd : c.draining with
  | true => exact absurd (hi.symm.trans (h.scheduled.waiting hr hd)) nofun
  | false => exact ⟨rfl, (h.scheduled.resting hr hd).2⟩

theorem announced_of_told (h : Orderly c) (ht : Told c) : Announced c := by
  intro hi hr hs
  obtain ⟨hd, hq⟩ := h.queue_eq_nil hi hr
  have hne : c.view.status ≠ .empty := by rcases hs with hs | hs <;> simp [hs]
  have hpos : 0 < c.view.revision := h.held.positive.resolve_left hne
  have hquiet := quiet_iff.mp (ht.resting hd)
  have hlast : c.announcements.getLast?.getD 0 = c.view.revision := by
    rcases hquiet with hl | he | hr
    · rcases hs with hs | hs <;> exact absurd (hs.symm.trans hl) nofun
    · exact absurd he hne
    · rw [h.getLast? hq, hr]
  cases hl : c.announcements.getLast? with
  | none =>
    rw [hl, Option.getD_none] at hlast
    omega
  | some revision =>
    rw [hl, Option.getD_some] at hlast
    rw [hlast]

/-- The step that is not clear leaves a revision unannounced. -/
theorem clear_of_announced (h : Orderly c) {event : ClientEvent ε α}
    (ha : Announced (c.step event)) : Clear c event := by
  cases event with
  | call | happens | immediate | returned => trivial
  | middlewareThrew =>
    rw [Clear]
    split
    · rename_i hr
      by_contra hn
      rw [not_or, not_not] at hn
      have hq := hn.1
      have hi := (h.scheduled.at_work (by rw [hr]; nofun)).2
      rw [quiet_iff, not_or, not_or] at hn
      have hs : c.view.status = .live ∨ c.view.status = .stale := by
        cases hv : c.view.status with
        | live => exact .inl rfl
        | stale => exact .inr rfl
        | loading => exact absurd hv hn.2.1
        | empty => exact absurd hv hn.2.2.1
      rw [step, middlewareThrew, hr] at ha
      simp only [leaveDrain, hq, if_true] at ha
      have hl := ha hi rfl hs
      have := h.getLast? hq
      rw [hl, Option.getD_some] at this
      exact hn.2.2.2 this
    · trivial

theorem orderly_run (events : List (ClientEvent ε α)) : Orderly (run step new events) :=
  run_invariant (I := Orderly) (fun _ event h => orderly_step h event) events orderly_new

theorem told_run (events : List (ClientEvent ε α)) (hc : Along step Clear new events) :
    Told (run step new events) := by
  refine (run_invariant_along (I := fun c => Orderly c ∧ Told c) (fun _ event h he => ?_)
    ⟨orderly_new, ⟨fun _ => rfl, nofun⟩⟩ hc).2
  exact ⟨orderly_step h.1 event, told_step h.1 h.2 he⟩

/-- **In order, and announced**: deliveries run in the order they were queued, each once and
none within another, and none is left behind where no drain is to come; and in all states
that a run goes through the last revision told is the view's, where no drain is to come, just
when no middleware throws out of the last delivery with a revision still to announce. -/
theorem deliveries_inOrder (events : List (ClientEvent ε α)) :
    (InOrder (run step new events) ∧
      ((run step (new : VoiceClient ε α) events).immediates = 0 →
        (run step (new : VoiceClient ε α) events).running = .nothing →
        (run step (new : VoiceClient ε α) events).queue = [])) ∧
      ((∀ before after, events = before ++ after →
          Announced (run step (new : VoiceClient ε α) before)) ↔
        Along step Clear (new : VoiceClient ε α) events) := by
  refine ⟨⟨(orderly_run events).inOrder, fun hi hr => ((orderly_run events).queue_eq_nil hi hr).2⟩,
    fun h => ?_, fun h before after he => ?_⟩
  · refine along_iff_forall_prefix.mpr fun before event after he => ?_
    refine clear_of_announced (orderly_run before) ?_
    rw [← run_concat step]
    exact h (before ++ [event]) after (by rw [he, List.append_assoc, List.singleton_append])
  · rw [he] at h
    exact announced_of_told (orderly_run before) (told_run before (along_append.mp h).1)

/-- A session whose welcome has been told, a client seen entering, and middleware that throws on
`notification`, which is queued behind every event that a packet brings. -/
def unannounced : List (ClientEvent Nat Str) :=
  [.call (.connect false), .happens .markConnected, .happens .welcomeFinished, .immediate,
    .returned, .returned, .happens (.view (.rosterSet 7 ⟨7, topChannel, .empty⟩)),
    .happens (.serverEvent (.of "clientEnter")), .happens (.serverEvent (.of "notification")),
    .immediate, .returned, .middlewareThrew]

/-- No drain is to come, the view is live at revision 3, and 2 is the last one told. -/
theorem deliveries_unannounced :
    (run step (new : VoiceClient Nat Str) unannounced).announcements = [2] ∧
      ¬Announced (run step (new : VoiceClient Nat Str) unannounced) := by
  decide

end VoiceClient

end Teamspeak.Client
