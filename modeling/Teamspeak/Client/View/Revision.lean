import Teamspeak.Client.View
import Teamspeak.Lib.Run

/-!
# The revision tells

* `Linked s`: the references of a store lead to objects, its caches hold what they were
  made of, and the roster is none of the maps handed out.
* `Later s t`: from `s` to `t` no object but the roster has changed, the revision has
  not gone back, and as long as it is the same so are the facts of the view.
* `Linked.step`, `later_step`: one operation; `later_run`: any number.
* `revision_law`: **equal revisions mean equal readings, what was handed out stays as
  it was, and each revision is announced at most once, in order.**
-/

namespace Teamspeak.Client.ViewStore

variable {ε : Type*} {s t u : ViewStore ε}

/-! ### Later states -/

/-- No object of `s` but the roster has changed. -/
structure Extends (s t : ViewStore ε) : Prop where
  roster_eq : t.roster = s.roster
  clientMaps : Heap.KeepsBut s.roster s.clientMaps t.clientMaps
  channelMaps : s.channelMaps.Keeps t.channelMaps
  groupMaps : s.groupMaps.Keeps t.groupMaps
  records : s.records.Keeps t.records
  trees : s.trees.Keeps t.trees
  le : s.revision ≤ t.revision

theorem Extends.refl (s : ViewStore ε) : Extends s s :=
  ⟨rfl, (Heap.Keeps.refl _).but _, .refl _, .refl _, .refl _, .refl _, Nat.le_refl _⟩

theorem Extends.trans (h : Extends s t) (h' : Extends t u) : Extends s u where
  roster_eq := h'.roster_eq.trans h.roster_eq
  clientMaps := h.clientMaps.trans (h.roster_eq ▸ h'.clientMaps)
  channelMaps := h.channelMaps.trans h'.channelMaps
  groupMaps := h.groupMaps.trans h'.groupMaps
  records := h.records.trans h'.records
  trees := h.trees.trans h'.trees
  le := h.le.trans h'.le

/-- What the view knows of the server. -/
structure Facts where
  status : ViewStatus
  clients : ClientMap
  channelTree : ChannelTree
  serverGroups : GroupMap
  channelGroups : GroupMap
  groupsLoaded : Bool
  server : Params

def facts (s : ViewStore ε) : Facts :=
  ⟨s.status, s.clients, s.channelTree, s.serverGroupMap, s.channelGroupMap, s.groupsLoaded,
    s.serverRecord⟩

/-- `t` may follow `s`: the facts are the same unless the revision has moved. -/
structure Later (s t : ViewStore ε) : Prop extends Extends s t where
  same : t.revision = s.revision → t.facts = s.facts

theorem Later.refl (s : ViewStore ε) : Later s s := ⟨.refl s, fun _ => rfl⟩

theorem Later.trans (h : Later s t) (h' : Later t u) : Later s u := by
  refine ⟨h.toExtends.trans h'.toExtends, fun heq => ?_⟩
  have hst := h.le
  have htu := h'.le
  rw [h'.same (by omega), h.same (by omega)]

/-- With the revision moved nothing is said of the facts. -/
theorem Later.of_lt (h : Extends s t) (hlt : s.revision < t.revision) : Later s t :=
  ⟨h, fun heq => absurd heq (Nat.ne_of_gt hlt)⟩

/-! ### The store's own order -/

structure Linked (s : ViewStore ε) : Prop where
  roster : s.clientMaps.read s.roster = some s.clients
  tree : s.trees.read s.tree = some s.channelTree
  serverGroups : s.groupMaps.read s.serverGroups = some s.serverGroupMap
  channelGroups : s.groupMaps.read s.channelGroups = some s.channelGroupMap
  server : s.records.read s.server = some s.serverRecord
  known_ne : s.known.clients ≠ s.roster
  known_le : s.known.revision ≤ s.revision
  known : ∃ m, s.clientMaps.read s.known.clients = some m ∧
    (s.known.revision = s.revision → m = s.clients)
  ordered : ∃ tree, s.trees.read s.ordered.tree = some tree ∧
    s.channelMaps.read s.ordered.channels = some (preorder tree)
  announced_le : s.announced ≤ s.revision
  announcements_le : ∀ revision ∈ s.announcements, revision ≤ s.announced
  announcements : s.announcements.Pairwise (· < ·)

theorem linked_new : Linked (new : ViewStore ε) where
  roster := rfl
  tree := rfl
  serverGroups := rfl
  channelGroups := rfl
  server := rfl
  known_ne := by simp [new]
  known_le := Nat.le_refl 0
  known := ⟨_, rfl, fun _ => rfl⟩
  ordered := ⟨_, rfl, rfl⟩
  announced_le := Nat.le_refl 0
  announcements_le := fun _ h => absurd h List.not_mem_nil
  announcements := List.Pairwise.nil

theorem Linked.withRows (h : Linked s) (rows : List Channel) : Linked { s with rows } :=
  { h with }

theorem Linked.withStatus (h : Linked s) (status : ViewStatus) : Linked { s with status } :=
  { h with }

theorem Linked.withSeen (h : Linked s) (serverGroupsSeen channelGroupsSeen : Bool) :
    Linked { s with serverGroupsSeen, channelGroupsSeen } :=
  { h with }

/-! ### Objects made and written -/

theorem extends_bump (s : ViewStore ε) : Extends s s.bump :=
  { Extends.refl s with le := Nat.le_succ _ }

theorem Linked.bump (h : Linked s) : Linked s.bump := by
  obtain ⟨m, hm, -⟩ := h.known
  have hle := h.known_le
  refine { h with
    known_le := hle.trans (Nat.le_succ _), known := ⟨m, hm, fun heq => ?_⟩
    announced_le := h.announced_le.trans (Nat.le_succ _) }
  have heq : s.known.revision = s.revision + 1 := heq
  omega

theorem extends_setTree (s : ViewStore ε) (tree : ChannelTree) : Extends s (s.setTree tree) :=
  { Extends.refl s with trees := Heap.keeps_alloc _ _ }

theorem Linked.setTree (h : Linked s) (tree : ChannelTree) : Linked (s.setTree tree) := by
  obtain ⟨t, ht, hm⟩ := h.ordered
  refine { h with tree := ?_, ordered := ⟨t, Heap.keeps_alloc _ _ _ _ ht, hm⟩ }
  simp only [ViewStore.setTree, channelTree, Heap.read_alloc, Option.getD_some]

theorem Linked.setServerGroupMap (h : Linked s) (groups : GroupMap) :
    Linked (s.setServerGroupMap groups) := by
  have hkeep := Heap.keeps_alloc s.groupMaps groups _ _ h.channelGroups
  refine { h with serverGroups := ?_, channelGroups := ?_ }
  · simp only [ViewStore.setServerGroupMap, serverGroupMap, Heap.read_alloc, Option.getD_some]
  · simp only [ViewStore.setServerGroupMap, channelGroupMap, hkeep, Option.getD_some]

theorem Linked.setChannelGroupMap (h : Linked s) (groups : GroupMap) :
    Linked (s.setChannelGroupMap groups) := by
  have hkeep := Heap.keeps_alloc s.groupMaps groups _ _ h.serverGroups
  refine { h with serverGroups := ?_, channelGroups := ?_ }
  · simp only [ViewStore.setChannelGroupMap, serverGroupMap, hkeep, Option.getD_some]
  · simp only [ViewStore.setChannelGroupMap, channelGroupMap, Heap.read_alloc, Option.getD_some]

theorem extends_setServerRecord (s : ViewStore ε) (record : Params) :
    Extends s (s.setServerRecord record) :=
  { Extends.refl s with records := Heap.keeps_alloc _ _ }

theorem Linked.setServerRecord (h : Linked s) (record : Params) :
    Linked (s.setServerRecord record) := by
  refine { h with server := ?_ }
  simp only [ViewStore.setServerRecord, serverRecord, Heap.read_alloc, Option.getD_some]

/-- The roster is written to, and the revision moves. -/
theorem extends_write (s : ViewStore ε) (m : ClientMap) :
    Extends s (ViewStore.bump { s with clientMaps := s.clientMaps.write s.roster m }) :=
  { Extends.refl s with clientMaps := Heap.keepsBut_write _ _ _, le := Nat.le_succ _ }

theorem Linked.write (h : Linked s) (m : ClientMap) :
    Linked (ViewStore.bump { s with clientMaps := s.clientMaps.write s.roster m }) := by
  obtain ⟨known, hknown, -⟩ := h.known
  have hle := h.known_le
  have hread := Heap.read_write h.roster m
  refine { h with
    roster := ?_, known_le := hle.trans (Nat.le_succ _)
    known := ⟨known, Heap.keepsBut_write _ _ _ _ _ h.known_ne hknown, fun heq => ?_⟩
    announced_le := h.announced_le.trans (Nat.le_succ _) }
  · simp only [ViewStore.bump, clients, hread, Option.getD_some]
  · have heq : s.known.revision = s.revision + 1 := heq
    omega

/-! ### One operation -/

/-- What an operation comes to: a store in order, later than the one before. -/
structure Follows (s t : ViewStore ε) : Prop where
  linked : Linked t
  later : Later s t

theorem Follows.refl (h : Linked s) : Follows s s := ⟨h, .refl s⟩

theorem Follows.trans (h : Follows s t) (h' : Follows t u) : Follows s u :=
  ⟨h'.linked, h.later.trans h'.later⟩

/-- Whatever was done to the store, the revision moves after it. -/
theorem Follows.of_bump (h : Linked t) (he : Extends s t) : Follows s t.bump :=
  ⟨h.bump, .of_lt (he.trans (extends_bump t)) (Nat.lt_succ_of_le he.le)⟩

theorem follows_write (h : Linked s) (m : ClientMap) :
    Follows s (ViewStore.bump { s with clientMaps := s.clientMaps.write s.roster m }) :=
  ⟨h.write m, .of_lt (extends_write s m) (Nat.lt_succ_self _)⟩

theorem follows_rosterDelete (h : Linked s) (id : Nat) : Follows s (s.rosterDelete id) := by
  rw [rosterDelete]
  split
  · exact follows_write h _
  · exact .refl h

theorem follows_rosterClear (h : Linked s) : Follows s s.rosterClear := by
  rw [rosterClear]
  split
  · exact follows_write h _
  · exact .refl h

theorem follows_dropChannel (h : Linked s) (self : Nat) (channelID : ChannelID) :
    Follows s (s.dropChannel self channelID) := by
  rw [dropChannel]
  generalize s.clients.entries = entries
  induction entries generalizing s with
  | nil => exact .refl h
  | cons entry entries ih =>
    obtain ⟨id, entry⟩ := entry
    have hdrop : Follows s
        (if entry.channelID = channelID ∧ id ≠ self then s.rosterDelete id else s) := by
      split
      · exact follows_rosterDelete h id
      · exact .refl h
    exact hdrop.trans (ih hdrop.linked)

theorem follows_reset (h : Linked s) : Follows s s.reset := by
  have hclear := follows_rosterClear h
  have hgroups := ((hclear.linked.withRows []).setTree
    ((ChannelTree.fromChannels []).getD {})).setServerGroupMap .empty |>.setChannelGroupMap .empty
  have hrecord := (hgroups.withSeen false false).setServerRecord .empty
  refine .of_bump (hrecord.withStatus .loading) (hclear.later.toExtends.trans ?_)
  refine { Extends.refl s.rosterClear with
    trees := Heap.keeps_alloc _ _, records := Heap.keeps_alloc _ _, groupMaps := ?_ }
  exact (Heap.keeps_alloc _ _).trans (Heap.keeps_alloc _ _)

theorem follows_collect (h : Linked s) (row : Channel) : Follows s (s.collect row) := by
  rw [collect]
  split
  · exact ⟨{ h with }, { Extends.refl s with same := fun _ => rfl }⟩
  · exact .refl h

theorem Linked.settle (h : Linked s) (result : Option (Ending ε)) : Linked (s.settle result) :=
  { h with }

theorem Follows.settle (h : Follows s t) (result : Option (Ending ε)) :
    Follows s (t.settle result) :=
  ⟨h.linked.settle result, { h.later with }⟩

/-- The revision reached counts as announced. -/
theorem Follows.report (h : Follows s t) : Follows s { t with announced := t.revision } := by
  refine ⟨{ h.linked with announced_le := Nat.le_refl _, announcements_le := ?_ },
    { h.later with }⟩
  intro revision hmem
  exact (h.linked.announcements_le revision hmem).trans h.linked.announced_le

theorem Follows.endedBy (h : Follows s t) (cause : Cause ε) :
    Follows s { t with endedBy := some cause.ending } :=
  ⟨{ h.linked with }, { h.later with }⟩

theorem follows_finish (h : Linked s) : Follows s s.finish.1 := by
  rw [finish]
  split
  · exact .refl h
  dsimp only
  split
  · exact ⟨{ h with }, { Extends.refl s with same := fun _ => rfl }⟩
  · rename_i tree _
    have hlive := ((h.withRows []).setTree tree).withStatus .live
    exact ((Follows.of_bump hlive
      { Extends.refl s with trees := Heap.keeps_alloc _ _ }).report).settle none

theorem follows_change (h : Linked s) (event : ChannelTree.Event) :
    Follows s (s.change event) := by
  rw [change]
  split
  · exact .refl h
  split
  · exact .refl h
  · rename_i tree _
    exact .of_bump (h.setTree tree) (extends_setTree s tree)

theorem follows_setServerGroups (h : Linked s) (groups : List Group) :
    Follows s (s.setServerGroups groups) := by
  rw [setServerGroups]
  split
  · exact .refl h
  dsimp only
  have hseen : Linked { s with serverGroupsSeen := true } := { h with }
  by_cases hchanged : (!sameGroups (serverGroupMap { s with serverGroupsSeen := true })
      (groupMap groups)) = true
  · rw [if_pos hchanged, if_pos (Or.inl hchanged)]
    exact .of_bump (hseen.setServerGroupMap _)
      { Extends.refl s with groupMaps := Heap.keeps_alloc _ _ }
  · rw [if_neg hchanged]
    split
    · exact .of_bump hseen { Extends.refl s with }
    · rename_i hloaded
      rw [not_or, not_not] at hloaded
      refine ⟨hseen, { Extends.refl s with same := fun _ => ?_ }⟩
      rw [facts, facts, ← hloaded.2]
      rfl

theorem follows_setChannelGroups (h : Linked s) (groups : List Group) :
    Follows s (s.setChannelGroups groups) := by
  rw [setChannelGroups]
  split
  · exact .refl h
  dsimp only
  have hseen : Linked { s with channelGroupsSeen := true } := { h with }
  by_cases hchanged : (!sameGroups (channelGroupMap { s with channelGroupsSeen := true })
      (groupMap groups)) = true
  · rw [if_pos hchanged, if_pos (Or.inl hchanged)]
    exact .of_bump (hseen.setChannelGroupMap _)
      { Extends.refl s with groupMaps := Heap.keeps_alloc _ _ }
  · rw [if_neg hchanged]
    split
    · exact .of_bump hseen { Extends.refl s with }
    · rename_i hloaded
      rw [not_or, not_not] at hloaded
      refine ⟨hseen, { Extends.refl s with same := fun _ => ?_ }⟩
      rw [facts, facts, ← hloaded.2]
      rfl

theorem follows_mergeEntries (h : Linked s) (entries : List (Str × Str)) :
    Follows s (s.mergeEntries entries) := by
  rw [mergeEntries]
  split
  · exact .refl h
  split
  · exact .refl h
  · exact .of_bump (h.setServerRecord _) (extends_setServerRecord s _)

theorem follows_end_ (h : Linked s) (cause : Cause ε) : Follows s (s.end_ cause) := by
  rw [end_]
  split
  · exact .refl h
  exact (Follows.of_bump (h.withStatus .stale) { Extends.refl s with }).endedBy cause |>.settle _

theorem follows_whenReady (h : Linked s) : Follows s s.whenReady := by
  rw [whenReady]
  dsimp only
  split
  all_goals exact ⟨{ h with }, { Extends.refl s with same := fun _ => rfl }⟩

theorem follows_announce (h : Linked s) : Follows s s.announce.1 := by
  rw [announce]
  split
  · exact .refl h
  split
  · exact .refl h
  rename_i hmoved
  have hle := h.announced_le
  refine ⟨{ h with announced_le := Nat.le_refl _, announcements_le := ?_, announcements := ?_ },
    { Extends.refl s with same := fun _ => rfl }⟩
  · intro revision hmem
    rcases List.mem_append.mp hmem with hmem | hmem
    · exact (h.announcements_le revision hmem).trans hle
    · rw [List.mem_singleton] at hmem
      exact Nat.le_of_eq hmem
  · rw [List.pairwise_append]
    refine ⟨h.announcements, List.pairwise_singleton _ _, fun revision hmem revision' hmem' => ?_⟩
    rw [List.mem_singleton] at hmem'
    have := h.announcements_le revision hmem
    omega

/-! ### Reading -/

theorem follows_readChannels (h : Linked s) : Follows s s.readChannels.1 ∧
    s.readChannels.1.channelMaps.read s.readChannels.2 = some (preorder s.channelTree) := by
  rw [readChannels]
  split
  · refine ⟨⟨{ h with ordered := ⟨s.channelTree, h.tree, Heap.read_alloc _ _⟩ }, ?_⟩,
      Heap.read_alloc _ _⟩
    exact { Extends.refl s with channelMaps := Heap.keeps_alloc _ _, same := fun _ => rfl }
  · rename_i hsame
    obtain ⟨tree, htree, hchannels⟩ := h.ordered
    rw [not_not] at hsame
    rw [hsame, h.tree, Option.some.injEq] at htree
    subst htree
    exact ⟨.refl h, hchannels⟩

theorem follows_readClients (h : Linked s) : Follows s s.readClients.1 ∧
    s.readClients.1.clientMaps.read s.readClients.2 = some s.clients ∧
      s.readClients.2 ≠ s.roster := by
  rw [readClients]
  split
  · have hroster := Heap.keeps_alloc s.clientMaps s.clients _ _ h.roster
    have hne := Heap.ne_alloc h.roster s.clients
    have hclients : clients { s with
        clientMaps := (s.clientMaps.alloc s.clients).1
        known := ⟨s.revision, (s.clientMaps.alloc s.clients).2⟩ } = s.clients := by
      simp only [clients] at hroster ⊢
      rw [hroster, Option.getD_some]
    refine ⟨⟨{ h with
      roster := ?_, known_ne := hne, known_le := Nat.le_refl _
      known := ⟨s.clients, Heap.read_alloc _ _, fun _ => hclients.symm⟩ }, ?_⟩,
      Heap.read_alloc _ _, hne⟩
    · rw [hclients]
      exact hroster
    · refine { Extends.refl s with clientMaps := (Heap.keeps_alloc _ _).but _, same := fun _ => ?_ }
      rw [facts, hclients]
      rfl
  · rename_i hsame
    rw [not_not] at hsame
    obtain ⟨m, hm, heq⟩ := h.known
    exact ⟨.refl h, by rw [hm, heq hsame], h.known_ne⟩

theorem follows_step (h : Linked s) (op : Op ε) : Follows s (s.step op) := by
  cases op with
  | reset => exact follows_reset h
  | collect row => exact follows_collect h row
  | finish => exact follows_finish h
  | change event => exact follows_change h event
  | rosterSet id entry => exact follows_write h _
  | rosterDelete id => exact follows_rosterDelete h id
  | rosterClear => exact follows_rosterClear h
  | dropChannel self channelID => exact follows_dropChannel h self channelID
  | setServerGroups groups => exact follows_setServerGroups h groups
  | setChannelGroups groups => exact follows_setChannelGroups h groups
  | seedServer params => exact follows_mergeEntries h _
  | patchServer changes => exact follows_mergeEntries h _
  | mergeServer params => exact follows_mergeEntries h _
  | end_ cause => exact follows_end_ h cause
  | whenReady => exact follows_whenReady h
  | giveUp waiter => exact ⟨{ h with }, { Extends.refl s with same := fun _ => rfl }⟩
  | announce => exact follows_announce h
  | readChannels => exact (follows_readChannels h).1
  | readClients => exact (follows_readClients h).1

theorem follows_run (h : Linked s) (ops : List (Op ε)) : Follows s (run step s ops) := by
  induction ops generalizing s with
  | nil => exact .refl h
  | cons op ops ih =>
    have hstep := follows_step h op
    exact hstep.trans (ih hstep.linked)

/-! ### The law -/

/-- What a reader sees are the facts. -/
theorem reading_eq (h : Linked s) : s.reading =
    { status := s.facts.status, channels := some (preorder s.facts.channelTree)
      clients := some s.facts.clients, serverGroups := some s.facts.serverGroups
      channelGroups := some s.facts.channelGroups, groupsLoaded := s.facts.groupsLoaded
      server := some s.facts.server } := by
  rw [reading, (follows_readChannels h).2, (follows_readClients h).2.1, h.serverGroups,
    h.channelGroups, h.server]
  rfl

/-- The objects that the getters of `s` hand out, with what they hold from then on, in
every state of every later run. -/
def Frozen (s : ViewStore ε) : Prop :=
  (∃ m, ∀ ops, (run step s.readChannels.1 ops).channelMaps.read s.readChannels.2 = some m) ∧
    (∃ m, ∀ ops, (run step s.readClients.1 ops).clientMaps.read s.readClients.2 = some m) ∧
    (∃ m, ∀ ops, (run step s ops).groupMaps.read s.serverGroups = some m) ∧
    (∃ m, ∀ ops, (run step s ops).groupMaps.read s.channelGroups = some m) ∧
    ∃ m, ∀ ops, (run step s ops).records.read s.server = some m

theorem frozen_of_linked (h : Linked s) : Frozen s := by
  have hlater := fun ops => (follows_run h ops).later
  obtain ⟨hchannels, hreadChannels⟩ := follows_readChannels h
  obtain ⟨hclients, hreadClients, hne⟩ := follows_readClients h
  have hroster := hclients.later.roster_eq
  exact ⟨⟨_, fun ops => (follows_run hchannels.linked ops).later.channelMaps _ _ hreadChannels⟩,
    ⟨_, fun ops =>
      (follows_run hclients.linked ops).later.clientMaps _ _ (hroster ▸ hne) hreadClients⟩,
    ⟨_, fun ops => (hlater ops).groupMaps _ _ h.serverGroups⟩,
    ⟨_, fun ops => (hlater ops).groupMaps _ _ h.channelGroups⟩,
    ⟨_, fun ops => (hlater ops).records _ _ h.server⟩⟩

theorem live_or_stale_of_announce {revision : Nat} (h : s.announce.2 = some revision) :
    s.status = .live ∨ s.status = .stale := by
  rw [announce] at h
  split at h
  · cases h
  · rename_i hstatus
    rw [not_or] at hstatus
    cases hs : s.status with
    | loading => exact absurd hs hstatus.1
    | empty => exact absurd hs hstatus.2
    | live => exact Or.inl rfl
    | stale => exact Or.inr rfl

/-- **The revision law**: over every sequence of operations the revision never goes
back, two reads at one revision read the same, what a read handed out never changes,
and the revisions announced increase, each announced while the view is live or stale. -/
theorem revision_law (ops ops' : List (Op ε)) :
    let s := run step new ops
    let t := run step s ops'
    s.revision ≤ t.revision ∧ (t.revision = s.revision → t.reading = s.reading) ∧ Frozen s ∧
      t.announcements.Pairwise (· < ·) ∧
      ∀ revision, s.announce.2 = some revision → s.status = .live ∨ s.status = .stale := by
  intro s t
  have hs : Linked s := (follows_run linked_new ops).linked
  have ht := follows_run hs ops'
  refine ⟨ht.later.le, fun heq => ?_, frozen_of_linked hs, ht.linked.announcements,
    fun revision => live_or_stale_of_announce⟩
  rw [reading_eq ht.linked, reading_eq hs, ht.later.same heq]

end Teamspeak.Client.ViewStore
