import Teamspeak.Core.ChannelTree.From

/-!
# Every tree is well formed

Whatever rows a tree is built from and whatever events it is fed, it is well formed,
and it holds the channels that the rows and the events leave.

* `WellFormed`: every clause, on the records and the lists alone.
* `Represents.wellFormed`: a tree that represents a family is well formed.
* `apply_spec`: one event, whatever it names.
* `run_wellFormed`: every run.
* `created_again_drops`: what a channel created twice takes with it.
-/

namespace Teamspeak.ChannelTree

/-- The trees of `rows`, after each event of `events`. -/
def run (rows : List Channel) (events : List Event) : Option ChannelTree := do
  let tree ← fromChannels rows
  events.foldlM apply tree

/-- The tree has a record of `x`. -/
def Held (tree : ChannelTree) (x : ChannelID) : Prop := ∃ c, tree.get x = some c

/-- The parent that the record of `x` names. -/
def up (tree : ChannelTree) (x : ChannelID) : ChannelID :=
  (tree.get x).elim topChannel Channel.parentID

/-- `x` is `a`, or in its subtree. -/
def Within (tree : ChannelTree) (a x : ChannelID) : Prop := ∃ n, tree.up^[n] x = a

/-- The walk from the top through the lists of children. -/
def walk (tree : ChannelTree) : List ChannelID :=
  Family.walk tree.kidsOf tree.steps topChannel

/-- What every tree keeps. -/
structure WellFormed (tree : ChannelTree) : Prop where
  /-- A record is held under its own id. -/
  id : ∀ x c, tree.get x = some c → c.id = x
  /-- A channel is in the list of its parent, once, and in no other. -/
  listed : ∀ x c, tree.get x = some c → ∀ p,
    (tree.kidsOf p).count x = if p = c.parentID then 1 else 0
  /-- The lists hold nothing else. -/
  only : ∀ p, ∀ x ∈ tree.kidsOf p, tree.Held x
  parent : ∀ x c, tree.get x = some c → c.parentID = topChannel ∨ tree.Held c.parentID
  /-- Following parents comes to the top. -/
  up : ∀ x, tree.Held x → ∃ n, tree.up^[n] x = topChannel
  /-- The walk from the top meets every channel that is held, once. -/
  walk : tree.walk.Perm (tree.channels.entries.map Prod.fst)
  order : ∀ x c, tree.get x = some c →
    c.order = predecessor topChannel (tree.kidsOf c.parentID) x
  nonempty : ∀ p, tree.kids.get? p ≠ some []
  no_top : ¬ tree.Held topChannel

/-- What an event leaves held: it removes the channel it deletes with its subtree, and
so does a creation with a channel of that id, which it then adds. -/
def HeldAfter (tree : ChannelTree) (event : Event) (x : ChannelID) : Prop :=
  if event.channelID = topChannel then tree.Held x
  else
    match event with
    | .created event => x = event.channelID ∨ tree.Held x ∧ ¬ tree.Within event.channelID x
    | .deleted event => tree.Held x ∧ ¬ tree.Within event.channelID x
    | .edited _ | .moved _ => tree.Held x

variable {tree : ChannelTree} {F : Family ChannelID} {p x a : ChannelID}

/-! ### The clauses -/

theorem Represents.held_iff_listed (h : Represents tree F noneLoose) :
    tree.Held x ↔ ∃ p, x ∈ F.kids p :=
  h.toHolds.held_iff.trans (or_iff_right id)

theorem Represents.kidsOf_eq (h : Represents tree F noneLoose) : tree.kidsOf = F.kids :=
  funext h.kids

theorem Represents.mem_kids (h : Represents tree F noneLoose) {c : Channel}
    (hc : tree.get x = some c) : x ∈ F.kids c.parentID := (h.held hc).resolve_left id

theorem Represents.up_eq (h : Represents tree F noneLoose) (hx : x ∈ F.kids p) :
    tree.up x = p := by
  obtain ⟨c, hc, hparent⟩ := h.kid hx
  unfold up get
  rw [hc]
  exact hparent

theorem up_of_not_held (hx : ¬ tree.Held x) : tree.up x = topChannel := by
  unfold up
  cases hget : tree.get x with
  | none => rfl
  | some c => exact absurd ⟨c, hget⟩ hx

/-- What reaches a channel is met on the way up. -/
theorem Represents.within_of_reach (h : Represents tree F noneLoose) (hreach : F.Reach a x) :
    tree.Within a x := by
  induction hreach with
  | refl => exact ⟨0, rfl⟩
  | tail _ hc ih =>
    obtain ⟨n, hn⟩ := ih
    refine ⟨n + 1, ?_⟩
    rw [Function.iterate_succ_apply, h.up_eq hc]
    exact hn

/-- **A subtree** is what the family says it is. -/
theorem Represents.within_iff (h : Represents tree F noneLoose) (ha : a ≠ topChannel) :
    tree.Within a x ↔ F.Reach a x := by
  refine ⟨?_, h.within_of_reach⟩
  rintro ⟨n, hn⟩
  induction n generalizing x with
  | zero =>
    have hxa : x = a := hn
    exact hxa ▸ Family.Reach.refl
  | succ n ih =>
    rw [Function.iterate_succ_apply] at hn
    have hreach := ih hn
    by_cases hx : tree.Held x
    · obtain ⟨c, hc⟩ := hx
      have hmem := h.mem_kids hc
      rw [h.up_eq hmem] at hreach
      exact hreach.child hmem
    · -- above a channel that is not held there is the top, and that is below nothing
      rw [up_of_not_held hx] at hreach
      cases hreach with
      | refl => exact absurd rfl ha
      | tail _ hmem => exact absurd hmem (h.rooted.free (Or.inl rfl))

theorem Represents.reach_top (h : Represents tree F noneLoose) (hx : tree.Held x) :
    F.Reach topChannel x := h.toHolds.reach_of_known (Or.inr hx)

/-- The walk meets just the channels that are held. -/
theorem Represents.mem_walk (h : Represents tree F noneLoose) :
    x ∈ tree.walk ↔ tree.Held x := by
  unfold walk
  rw [h.kidsOf_eq, Family.mem_walk h.rooted (card_heldIds_lt tree).le]
  · constructor
    · rintro ⟨c, hc, hcx⟩
      obtain ⟨p, hp⟩ | rfl : (∃ p, x ∈ F.kids p) ∨ x = c := by
        cases hcx with
        | refl => exact Or.inr rfl
        | tail _ hx => exact Or.inl ⟨_, hx⟩
      · exact h.held_iff_listed.mpr ⟨p, hp⟩
      · exact h.held_iff_listed.mpr ⟨_, hc⟩
    · intro hx
      refine (h.reach_top hx).through_child.resolve_left ?_
      rintro rfl
      obtain ⟨c, hc⟩ := hx
      exact h.ne_top hc rfl
  · intro c hc y hy
    rcases h.held_of_reach hy with rfl | ⟨d, hd⟩
    · obtain ⟨d, hd, -⟩ := h.kid hc
      exact mem_heldIds hd
    · exact mem_heldIds hd

/-- **A tree that represents a family** is well formed. -/
theorem Represents.wellFormed (h : Represents tree F noneLoose) : tree.WellFormed where
  id _ _ hc := h.id hc
  listed := by
    intro x c hc p
    have hmem := h.mem_kids hc
    rw [h.kids]
    by_cases hp : p = c.parentID
    · rw [if_pos hp, hp]
      exact List.count_eq_one_of_mem (F.nodup _) hmem
    · rw [if_neg hp]
      exact List.count_eq_zero_of_not_mem fun hx => hp (F.unique hx hmem)
  only p x hx := h.held_iff_listed.mpr ⟨p, h.kids p ▸ hx⟩
  parent _ _ hc := h.parent_held (h.mem_kids hc)
  up _ hx := h.within_of_reach (h.reach_top hx)
  walk := by
    have hnodup : tree.walk.Nodup := by
      unfold walk
      rw [h.kidsOf_eq]
      exact Family.nodup_walk h.rooted _ _
    rw [List.perm_ext_iff_of_nodup hnodup tree.channels.nodup]
    intro x
    rw [h.mem_walk, List.mem_map]
    constructor
    · rintro ⟨c, hc⟩
      exact ⟨(x, c), InsertionMap.mem_entries.mpr hc, rfl⟩
    · rintro ⟨⟨y, c⟩, hc, rfl⟩
      exact ⟨c, InsertionMap.mem_entries.mp hc⟩
  order := by
    intro x c hc
    rw [h.kids]
    exact h.ordered _ x (h.mem_kids hc) c hc
  nonempty := h.nonempty
  no_top := by
    rintro ⟨c, hc⟩
    exact h.ne_top hc rfl

/-! ### One event -/

/-- A channel put back into a list is still in one. -/
theorem listed_attach_detach {list : List ChannelID} {q : ChannelID}
    {hlist : list.Perm (a :: (F.detach a).kids q)} {ha : ∀ p, a ∉ (F.detach a).kids p}
    (hmem : a ∈ F.kids p) :
    (∃ r, x ∈ ((F.detach a).attach q a list hlist ha).kids r) ↔ ∃ r, x ∈ F.kids r := by
  constructor
  · rintro ⟨r, hx⟩
    rcases Family.mem_attach.mp hx with ⟨rfl, -⟩ | hx
    · exact ⟨p, hmem⟩
    · exact ⟨r, (Family.mem_detach.mp hx).1⟩
  · rintro ⟨r, hx⟩
    by_cases hxa : x = a
    · exact ⟨q, Family.mem_attach.mpr (Or.inl ⟨hxa, rfl⟩)⟩
    · exact ⟨r, Family.mem_attach.mpr (Or.inr (Family.mem_detach.mpr ⟨hx, hxa⟩))⟩

/-- What is in a list once a channel is cut with its subtree. -/
theorem listed_cut : (∃ r, x ∈ (F.cut (F.Reach a)).kids r) ↔
    (∃ r, x ∈ F.kids r) ∧ ¬ F.Reach a x := by
  constructor
  · rintro ⟨r, hx⟩
    obtain ⟨hx, -, hnot⟩ := Family.mem_cut.mp hx
    exact ⟨⟨r, hx⟩, hnot⟩
  · rintro ⟨⟨r, hx⟩, hnot⟩
    exact ⟨r, Family.mem_cut.mpr ⟨hx, fun hr => hnot (hr.child hx), hnot⟩⟩

theorem create_held (h : Represents tree F noneLoose) {event : ChannelCreatedEvent}
    (hne : event.channelID ≠ topChannel) :
    ∃ next G, create tree event = some next ∧ Represents next G noneLoose ∧
      ∀ x, next.Held x ↔ x = event.channelID ∨ tree.Held x ∧ ¬ tree.Within event.channelID x := by
  obtain ⟨next, G, q, hx, hnext, rfl, hrep, -⟩ := create_spec h event hne
  refine ⟨next, _, hnext, hrep, fun x => ?_⟩
  rw [hrep.held_iff_listed, h.within_iff hne, h.held_iff_listed, ← listed_cut]
  constructor
  · rintro ⟨r, hx⟩
    exact (Family.mem_attach.mp hx).imp And.left fun hx => ⟨r, hx⟩
  · rintro (rfl | ⟨r, hx⟩)
    · exact ⟨q, Family.mem_attach.mpr (Or.inl ⟨rfl, rfl⟩)⟩
    · exact ⟨r, Family.mem_attach.mpr (Or.inr hx)⟩

theorem edit_held (h : Represents tree F noneLoose) (event : ChannelEditedEvent) :
    ∃ next G, edit tree event = some next ∧ Represents next G noneLoose ∧
      ∀ x, next.Held x ↔ tree.Held x := by
  cases hc : tree.channels.get? event.channelID with
  | none =>
    refine ⟨{ tree with consistent := false }, F, ?_, h.withConsistent false, fun _ => Iff.rfl⟩
    unfold edit
    rw [hc]
  | some c =>
    cases horder : event.changes.order with
    | none =>
      obtain ⟨next, hnext, hrep, -⟩ := edit_of_no_order event hc (h.id hc) horder h
      exact ⟨next, F, hnext, hrep, fun x => hrep.held_iff_listed.trans h.held_iff_listed.symm⟩
    | some order =>
      obtain ⟨next, hx, hnext, hrep, -⟩ := edit_of_order event hc horder h
      refine ⟨next, _, hnext, hrep, fun x => ?_⟩
      rw [hrep.held_iff_listed, h.held_iff_listed]
      exact listed_attach_detach (h.mem_kids hc)

theorem move_held (h : Represents tree F noneLoose) (event : ChannelMovedEvent) :
    ∃ next G, move tree event = some next ∧ Represents next G noneLoose ∧
      ∀ x, next.Held x ↔ tree.Held x := by
  cases hc : tree.channels.get? event.channelID with
  | none =>
    refine ⟨{ tree with consistent := false }, F, ?_, h.withConsistent false, fun _ => Iff.rfl⟩
    unfold move
    rw [hc]
  | some c =>
    obtain ⟨next, q, hx, hnext, hrep, -⟩ := move_spec h event hc
    refine ⟨next, _, hnext, hrep, fun x => ?_⟩
    rw [hrep.held_iff_listed, h.held_iff_listed]
    exact listed_attach_detach (h.mem_kids hc)

theorem remove_held (h : Represents tree F noneLoose) (ha : a ≠ topChannel) :
    ∃ next G, remove tree.steps tree a = some next ∧ Represents next G noneLoose ∧
      ∀ x, next.Held x ↔ tree.Held x ∧ ¬ tree.Within a x := by
  cases hc : tree.channels.get? a with
  | none =>
    refine ⟨_, F, remove_of_not_held hc, h.withConsistent false, fun x => ?_⟩
    refine (and_iff_left_of_imp ?_).symm
    rintro ⟨c, hx⟩ hwithin
    -- nothing that is held is below what is not
    rw [h.within_iff ha] at hwithin
    rw [hwithin.of_no_kids (h.kids_of_not_held hc ha)] at hx
    exact Option.some_ne_none c (hx.symm.trans hc)
  | some c =>
    obtain ⟨next, hnext, hrep, -⟩ := remove_spec tree.steps tree F noneLoose c.parentID a
      tree.heldIds h (h.mem_kids hc) (card_heldIds_lt tree).le (by
        intro y hy
        rcases h.held_of_reach hy with rfl | ⟨d, hd⟩
        · exact mem_heldIds hc
        · exact mem_heldIds hd)
    refine ⟨next, _, hnext, hrep, fun x => ?_⟩
    rw [hrep.held_iff_listed, h.within_iff ha, h.held_iff_listed]
    exact listed_cut

/-- **Any event** keeps a tree well formed. -/
theorem apply_spec (h : Represents tree F noneLoose) (event : Event) :
    ∃ next G, apply tree event = some next ∧ Represents next G noneLoose ∧
      ∀ x, next.Held x ↔ HeldAfter tree event x := by
  unfold apply HeldAfter
  by_cases hne : event.channelID = topChannel
  · simp only [if_pos hne]
    exact ⟨_, F, rfl, h.withConsistent false, fun _ => Iff.rfl⟩
  · simp only [if_neg hne]
    cases event with
    | created event => exact create_held h hne
    | edited event => exact edit_held h event
    | moved event => exact move_held h event
    | deleted event => exact remove_held h hne

/-! ### Every run -/

theorem run_concat (rows : List Channel) (events : List Event) (event : Event) :
    run rows (events ++ [event]) = (run rows events).bind fun tree => apply tree event := by
  unfold run
  rw [Option.bind_eq_bind, Option.bind_assoc]
  congr 1
  funext tree
  rw [List.foldlM_append]
  congr 1
  funext next
  rw [List.foldlM_cons]
  exact Option.bind_fun_some _

theorem run_represents (rows : List Channel) (events : List Event) :
    ∃ tree F, run rows events = some tree ∧ Represents tree F noneLoose := by
  induction events using List.reverseRecOn with
  | nil =>
    obtain ⟨tree, F, htree, hrep, -⟩ := fromChannels_spec rows
    refine ⟨tree, F, ?_, hrep⟩
    unfold run
    rw [htree]
    rfl
  | append_singleton events event ih =>
    obtain ⟨tree, F, htree, hrep⟩ := ih
    obtain ⟨next, G, hnext, hrep', -⟩ := apply_spec hrep event
    refine ⟨next, G, ?_, hrep'⟩
    rw [run_concat, htree]
    exact hnext

/-- **Every tree is well formed**, whatever it is built from and fed, and no step
fails. -/
theorem run_wellFormed (rows : List Channel) (events : List Event) :
    ∃ tree, run rows events = some tree ∧ tree.WellFormed ∧
      (events = [] → ∀ x, tree.Held x ↔ x ≠ topChannel ∧ x ∈ rows.map Channel.id) ∧
      ∀ before event, events = before ++ [event] →
        ∃ prev, run rows before = some prev ∧ ∀ x, tree.Held x ↔ HeldAfter prev event x := by
  obtain ⟨tree, F, htree, hrep⟩ := run_represents rows events
  refine ⟨tree, htree, hrep.wellFormed, ?_, ?_⟩
  · rintro rfl x
    obtain ⟨first, G, hfirst, -, hheld⟩ := fromChannels_spec rows
    unfold run at htree
    rw [hfirst] at htree
    cases Option.some.inj htree
    exact hheld x
  · rintro before event rfl
    obtain ⟨prev, G, hprev, hrep'⟩ := run_represents rows before
    obtain ⟨next, -, hnext, -, hheld⟩ := apply_spec hrep' event
    refine ⟨prev, hprev, ?_⟩
    rw [run_concat, hprev] at htree
    cases Option.some.inj (hnext.symm.trans htree)
    exact hheld

/-- A channel under another is gone once that is created again, with no channel
deleted. -/
theorem created_again_drops :
    (run [{ id := 2, parentID := 0, order := 0, properties := .empty },
        { id := 5, parentID := 2, order := 0, properties := .empty }] []).map
      (fun tree => ((tree.get 2).isSome, (tree.get 5).isSome)) = some (true, true) ∧
    (run [{ id := 2, parentID := 0, order := 0, properties := .empty },
        { id := 5, parentID := 2, order := 0, properties := .empty }]
      [.created { channelID := 2, parentID := 0, changes := { order := some 0 } }]).map
      (fun tree => ((tree.get 2).isSome, (tree.get 5).isSome)) = some (true, false) := by
  decide

end Teamspeak.ChannelTree
