import Teamspeak.Client.View

/-!
# How a view ends

* `Kept s t`: a view that takes what the server tells goes on to, and one that has ended
  stays ended, by the same error and with nobody waiting.
* `kept_step`: so it is with every operation but `reset` and `end`.
* `ended_end_`: `end` ends a view that takes what the server tells, and no other.
-/

namespace Teamspeak.Client.ViewStore

variable {ε : Type*} {s t u : ViewStore ε}

/-- The view is stale by `ending`, and all who waited were told. -/
structure Ended (s : ViewStore ε) (ending : Ending ε) : Prop where
  status : s.status = .stale
  endedBy : s.endedBy = some ending
  waiters : s.waiters = []

structure Kept (s t : ViewStore ε) : Prop where
  accepting : s.accepting = true → t.accepting = true
  ended : ∀ ending, s.Ended ending → t.Ended ending

theorem Kept.refl (s : ViewStore ε) : Kept s s := ⟨id, fun _ => id⟩

theorem Kept.trans (h : Kept s t) (h' : Kept t u) : Kept s u where
  accepting := h'.accepting ∘ h.accepting
  ended ending := h'.ended ending ∘ h.ended ending

theorem Kept.of_eq (hstatus : t.status = s.status) (hended : t.endedBy = s.endedBy)
    (hwaiters : t.waiters = s.waiters) : Kept s t where
  accepting h := by
    rw [ViewStore.accepting] at h ⊢
    rwa [hstatus]
  ended ending h := ⟨hstatus.trans h.status, hended.trans h.endedBy, hwaiters.trans h.waiters⟩

theorem kept_rosterDelete (id : Nat) : Kept s (s.rosterDelete id) := by
  rw [rosterDelete]
  split <;> exact .of_eq rfl rfl rfl

theorem kept_dropChannel (self : Nat) (channelID : ChannelID) :
    Kept s (s.dropChannel self channelID) := by
  rw [dropChannel]
  generalize s.clients.entries = entries
  induction entries generalizing s with
  | nil => exact .refl s
  | cons entry entries ih =>
    rw [List.foldl_cons]
    refine Kept.trans ?_ ih
    dsimp only
    split
    · exact kept_rosterDelete entry.1
    · exact .refl s

theorem kept_finish : Kept s s.finish.1 := by
  unfold finish
  split
  · exact .refl s
  · rename_i hloading
    rw [not_not] at hloading
    dsimp only
    split
    · exact .of_eq rfl rfl rfl
    · refine ⟨fun _ => rfl, fun ending h => ?_⟩
      cases hloading.symm.trans h.status

theorem kept_change (event : ChannelTree.Event) : Kept s (s.change event) := by
  rw [change]
  split
  · exact .refl s
  · split <;> exact .of_eq rfl rfl rfl

theorem kept_setServerGroups (groups : List Group) : Kept s (s.setServerGroups groups) := by
  rw [setServerGroups]
  split
  · exact .refl s
  · dsimp only
    split <;> split <;> exact .of_eq rfl rfl rfl

theorem kept_setChannelGroups (groups : List Group) : Kept s (s.setChannelGroups groups) := by
  rw [setChannelGroups]
  split
  · exact .refl s
  · dsimp only
    split <;> split <;> exact .of_eq rfl rfl rfl

theorem kept_mergeEntries (entries : List (Str × Str)) : Kept s (s.mergeEntries entries) := by
  rw [mergeEntries]
  split
  · exact .refl s
  · split
    · exact .refl s
    · exact .of_eq rfl rfl rfl

theorem kept_whenReady : Kept s s.whenReady := by
  rw [whenReady]
  dsimp only
  split
  · exact .of_eq rfl rfl rfl
  · exact .of_eq rfl rfl rfl
  · rename_i hstale
    refine ⟨id, fun ending h => ?_⟩
    exact absurd h.status hstale

theorem kept_giveUp (waiter : Nat) : Kept s (s.giveUp waiter) := by
  refine ⟨id, fun ending h => ⟨h.status, h.endedBy, ?_⟩⟩
  show s.waiters.filter _ = []
  rw [h.waiters, List.filter_nil]

theorem kept_announce : Kept s s.announce.1 := by
  rw [announce]
  split
  · exact .refl s
  · split
    · exact .refl s
    · exact .of_eq rfl rfl rfl

/-- Only `reset` opens a view again, and only `end` ends one. -/
theorem kept_step {op : Op ε} (hreset : op ≠ .reset) (hend : ∀ cause, op ≠ .end_ cause) :
    Kept s (s.step op) := by
  cases op with
  | reset => exact absurd rfl hreset
  | end_ cause => exact absurd rfl (hend cause)
  | collect row =>
    show Kept s (s.collect row)
    rw [collect]
    split <;> exact .of_eq rfl rfl rfl
  | finish => exact kept_finish
  | change event => exact kept_change event
  | rosterSet id entry => exact .of_eq rfl rfl rfl
  | rosterDelete id => exact kept_rosterDelete id
  | rosterClear =>
    show Kept s s.rosterClear
    rw [rosterClear]
    split <;> exact .of_eq rfl rfl rfl
  | dropChannel self channelID => exact kept_dropChannel self channelID
  | setServerGroups groups => exact kept_setServerGroups groups
  | setChannelGroups groups => exact kept_setChannelGroups groups
  | seedServer params => exact kept_mergeEntries _
  | patchServer changes => exact kept_mergeEntries _
  | mergeServer params => exact kept_mergeEntries _
  | whenReady => exact kept_whenReady
  | giveUp waiter => exact kept_giveUp waiter
  | announce => exact kept_announce
  | readChannels =>
    show Kept s s.readChannels.1
    rw [readChannels]
    split <;> exact .of_eq rfl rfl rfl
  | readClients =>
    show Kept s s.readClients.1
    rw [readClients]
    split <;> exact .of_eq rfl rfl rfl

theorem ended_end_ (h : s.accepting = true) (cause : Cause ε) :
    (s.end_ cause).Ended cause.ending := by
  rw [accepting, decide_eq_true_eq] at h
  rw [end_, if_neg (by rintro ⟨hloading, hlive⟩; exact h.elim hloading hlive)]
  exact ⟨rfl, rfl, rfl⟩

/-- A view that has ended cannot end otherwise. -/
theorem Ended.end_ {ending : Ending ε} (h : s.Ended ending) (cause : Cause ε) :
    (s.end_ cause).Ended ending := by
  rw [ViewStore.end_, if_pos (by simp [h.status])]
  exact h

theorem accepting_reset (s : ViewStore ε) : s.reset.accepting = true := rfl

end Teamspeak.Client.ViewStore
