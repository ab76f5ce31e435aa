import Teamspeak.Core.ChannelTree.From

/-!
# The tree of a listing

Rows that describe a family, in any order, make a tree of that family, and one that is
consistent (`fromChannels_of_family`).
-/

namespace Teamspeak.ChannelTree

/-- Rows that describe `F`, in any order: each channel of it once, with the parent and the
order that its place gives it. -/
structure RowsOf (F : Family ChannelID) (rows : List Channel) : Prop where
  nodup : (rows.map Channel.id).Nodup
  row : ∀ c ∈ rows, c.id ∈ F.kids c.parentID ∧
    c.order = predecessor topChannel (F.kids c.parentID) c.id
  all : ∀ {p x}, x ∈ F.kids p → x ∈ rows.map Channel.id
  rooted : F.Rooted fun r => r = topChannel ∨ noneLoose r

/-- The records along a list whose orders are its places are a chain. -/
theorem chained_of_predecessor {record : ChannelID → Option Channel} {list : List ChannelID}
    (hnodup : list.Nodup) {first : ChannelID}
    (h : ∀ x ∈ list, ∃ c, record x = some c ∧ c.id = x ∧ c.order = predecessor first list x) :
    Chained first (list.filterMap record) ∧ (list.filterMap record).map Channel.id = list := by
  induction list generalizing first with
  | nil => exact ⟨trivial, rfl⟩
  | cons x list ih =>
    rw [List.nodup_cons] at hnodup
    obtain ⟨c, hc, hid, horder⟩ := h x List.mem_cons_self
    have hrest : ∀ y ∈ list, ∃ d, record y = some d ∧ d.id = y ∧
        d.order = predecessor x list y := by
      intro y hy
      obtain ⟨d, hd, hid, horder⟩ := h y (List.mem_cons_of_mem _ hy)
      refine ⟨d, hd, hid, horder.trans (predecessor_cons_of_ne ?_)⟩
      rintro rfl
      exact hnodup.1 hy
    obtain ⟨hchain, hids⟩ := ih hnodup.2 hrest
    rw [List.filterMap_cons_some hc, List.map_cons, hid, hids]
    rw [predecessor_cons_self] at horder
    exact ⟨⟨horder, hid.symm ▸ hchain⟩, rfl⟩

/-- Settling changes orders, and nothing else of a record. -/
theorem settleAfter_frame {draft next : ChannelTree} {order : ChannelID} {list : List ChannelID}
    (hnext : settleAfter draft order list = some next) {x : ChannelID} {c : Channel}
    (hc : next.channels.get? x = some c) :
    ∃ c₀, draft.channels.get? x = some c₀ ∧ c = { c₀ with order := c.order } := by
  induction list generalizing draft order with
  | nil =>
    obtain rfl := Option.some.inj hnext
    exact ⟨c, hc, rfl⟩
  | cons id list ih =>
    rw [settleAfter] at hnext
    obtain ⟨channel, hchannel, hnext⟩ := Option.bind_eq_some_iff.mp hnext
    obtain ⟨c₀, hc₀, heq⟩ := ih hnext
    split at hc₀
    · rw [InsertionMap.get?_set] at hc₀
      split at hc₀
      · rename_i hid
        subst hid
        obtain rfl := Option.some.inj hc₀
        exact ⟨channel, hchannel, heq⟩
      · exact ⟨c₀, hc₀, heq⟩
    · exact ⟨c₀, hc₀, heq⟩

theorem foldlM_settleGroup_frame {groups : List (ChannelID × List ChannelID)}
    {draft next : ChannelTree} (hnext : groups.foldlM settleGroup draft = some next)
    {x : ChannelID} {c : Channel} (hc : next.channels.get? x = some c) :
    ∃ c₀, draft.channels.get? x = some c₀ ∧ c = { c₀ with order := c.order } := by
  induction groups generalizing draft with
  | nil =>
    obtain rfl := Option.some.inj hnext
    exact ⟨c, hc, rfl⟩
  | cons group groups ih =>
    rw [List.foldlM_cons] at hnext
    obtain ⟨mid, hmid, hnext⟩ := Option.bind_eq_some_iff.mp hnext
    obtain ⟨c₁, hc₁, heq⟩ := ih hnext
    rw [settleGroup] at hmid
    split at hmid
    · obtain rfl := Option.some.inj hmid
      exact ⟨c₁, hc₁, heq⟩
    · obtain ⟨c₀, hc₀, heq₀⟩ := settleAfter_frame hmid hc₁
      refine ⟨c₀, hc₀, ?_⟩
      rw [heq, heq₀]

section OfFamily

variable {F : Family ChannelID} {channels : List Channel} (h : RowsOf F channels)
include h

theorem RowsOf.read : (channels.foldl addRow {}).rows = channels ∧
    (channels.foldl addRow {}).consistent = true := by
  apply read_of_distinct (rowsOk_read []).1 h.nodup
  rintro c hc htop
  exact h.rooted.free (Or.inl rfl) (htop ▸ (h.row c hc).1)

theorem RowsOf.record {p x : ChannelID} (hx : x ∈ F.kids p) :
    ∃ c ∈ channels, (channels.foldl addRow {}).channels.get? x = some c ∧ c.id = x ∧
      c.parentID = p := by
  obtain ⟨c, hc, rfl⟩ := List.mem_map.mp (h.all hx)
  refine ⟨c, hc, ?_, rfl, F.unique (h.row c hc).1 hx⟩
  apply (rowsOk_read channels).1.get?_eq
  rw [h.read.1]
  exact hc

/-- Every row has a parent that it can have. -/
theorem RowsOf.not_misplaced {c : Channel} (hc : c ∈ channels) :
    ¬ Misplaced (channels.foldl addRow {}).channels c := by
  rintro ⟨htop, hself | hno⟩
  · have hmem := (h.row c hc).1
    rw [hself] at hmem
    exact h.rooted.not_mem_kids_self hmem
  · obtain ⟨r, hr, hreach⟩ := h.rooted.reach (h.row c hc).1
    obtain rfl := hr.resolve_right id
    rcases Relation.ReflTransGen.cases_tail hreach with heq | ⟨q, -, hp⟩
    · exact htop heq
    · obtain ⟨d, -, hd, -⟩ := h.record hp
      rw [InsertionMap.has_iff.mpr ⟨d, hd⟩] at hno
      cases hno

/-- The records along a list have the orders of its places. -/
theorem RowsOf.places (p : ChannelID) : ∀ x ∈ F.kids p, ∃ c,
    (channels.foldl addRow {}).channels.get? x = some c ∧ c.id = x ∧
      c.order = predecessor topChannel (F.kids p) x := by
  intro x hx
  obtain ⟨c, hc, hget, hid, hparent⟩ := h.record hx
  refine ⟨c, hget, hid, ?_⟩
  rw [(h.row c hc).2, hid, hparent]

/-- What is filed under `p`: the records along its list. -/
theorem RowsOf.group_perm (p : ChannelID) :
    (group (channels.foldl addRow {}) p).Perm
      ((F.kids p).filterMap (channels.foldl addRow {}).channels.get?) := by
  have hok := (rowsOk_read channels).1
  have hids := (chained_of_predecessor (F.nodup p) (h.places p)).2
  rw [List.perm_ext_iff_of_nodup]
  · intro c
    rw [group, List.mem_filter, decide_eq_true_eq, List.mem_filterMap, h.read.1]
    constructor
    · rintro ⟨hc, hp⟩
      rw [filedUnder, if_neg (h.not_misplaced hc)] at hp
      exact ⟨c.id, hp ▸ (h.row c hc).1, hok.get?_eq (h.read.1.symm ▸ hc)⟩
    · rintro ⟨x, hx, hget⟩
      obtain ⟨d, hd, hrecord, -, hparent⟩ := h.record hx
      rw [hrecord] at hget
      cases hget
      exact ⟨hd, (if_neg (h.not_misplaced hd)).trans hparent⟩
  · exact List.Nodup.of_map _ (hok.nodup.sublist (List.filter_sublist.map _))
  · exact List.Nodup.of_map _ (hids.symm ▸ F.nodup p)

/-- Each list is sorted along its chain, without a flaw. -/
theorem RowsOf.sortSiblings_eq (p : ChannelID) (b : Bool) :
    sortSiblings (group (channels.foldl addRow {}) p) b =
      some { out := F.kids p, consistent := b } := by
  obtain ⟨hchain, hids⟩ := chained_of_predecessor (F.nodup p) (h.places p)
  have hnodup : (topChannel :: ((F.kids p).filterMap
      (channels.foldl addRow {}).channels.get?).map Channel.id).Nodup := by
    rw [hids, List.nodup_cons]
    exact ⟨h.rooted.free (Or.inl rfl), F.nodup p⟩
  rw [sortSiblings_chain (h.group_perm p) hchain hnodup, hids]

theorem RowsOf.grouping_consistent : (grouping channels).draft.consistent = true := by
  have hgrouped : Grouped _ _ _ (grouping channels) := grouped_read (rowsOk_read channels).1
  rw [hgrouped.consistent]
  · exact h.read.2
  · intro row hrow
    exact h.not_misplaced (h.read.1 ▸ hrow)

/-- A row is filed as it is. -/
theorem RowsOf.filed {c : Channel} (hc : c ∈ channels) :
    (grouping channels).draft.channels.get? c.id = some c := by
  have hgrouped : Grouped _ _ _ (grouping channels) := grouped_read (rowsOk_read channels).1
  have hfiled := hgrouped.filed c (h.read.1.symm ▸ hc)
  rwa [ChannelTree.filed, filedUnder, if_neg (h.not_misplaced hc)] at hfiled

/-- **The tree of a listing** is the tree of its family, and consistent; its records are the
rows. -/
theorem fromChannels_of_family :
    ∃ tree, fromChannels channels = some tree ∧ Represents tree F noneLoose ∧
      tree.consistent = true ∧ ∀ c ∈ channels, tree.get c.id = some c := by
  have hok := (rowsOk_read channels).1
  have hgrouped : Grouped _ _ _ (grouping channels) := grouped_read hok
  obtain ⟨sorted, hsorted, hchannels, hconsistent, hkids⟩ := sorted_spec channels
    (P := fun p out => out = F.kids p) (Q := True)
    (fun p b => ⟨_, h.sortSiblings_eq p b, rfl, fun _ => rfl⟩)
    (by
      intro p hnil
      have hperm := h.group_perm p
      rw [hnil] at hperm
      have hids := (chained_of_predecessor (F.nodup p) (h.places p)).2
      rw [hperm.nil_eq.symm] at hids
      exact hids)
  obtain ⟨G, hlinked⟩ := linked_of_sorted hok hgrouped hchannels (by
    intro p
    rw [hkids p, ← (chained_of_predecessor (F.nodup p) (h.places p)).2]
    exact ((h.group_perm p).map _).symm)
  obtain rfl : G = F := by
    apply Family.ext
    funext p
    rw [← hlinked.kids, hkids]
  obtain ⟨reachable, hmark, hreachable⟩ := reachable_mark hlinked
  have htop : ∀ {p x}, x ∈ G.kids p → G.Reach topChannel x := by
    intro p x hx
    obtain ⟨r, hr, hrx⟩ := h.rooted.reach_child hx
    obtain rfl := hr.resolve_right id
    exact hrx
  have hhang : (channels.foldl addRow {}).rows.foldlM hangRow (sorted, reachable) =
      some (sorted, reachable) := by
    apply foldlM_hangRow_of_mem
    intro row hrow
    rw [h.read.1] at hrow
    have hmem := (h.row row hrow).1
    exact (hreachable.mem (htop hmem)).resolve_left (hlinked.ne_top hmem)
  obtain ⟨tree, htree, hrep, hsame⟩ :=
    settle_all (hlinked.holds fun x c hc => htop (hlinked.held hc))
  refine ⟨tree, fromChannels_eq hsorted hmark hhang htree, hrep, ?_, fun row hrow => ?_⟩
  · rw [hsame, hconsistent trivial, h.grouping_consistent]
  · have hplace := h.row row hrow
    obtain ⟨c, hc, -⟩ := hrep.kid hplace.1
    obtain ⟨c₀, hc₀, heq⟩ := foldlM_settleGroup_frame htree hc
    rw [hchannels, h.filed hrow] at hc₀
    obtain rfl := Option.some.inj hc₀
    -- its order is that of its place, which is what the row said
    rw [get, hc, heq, hrep.ordered _ _ hplace.1 c hc, ← hplace.2]

end OfFamily

end Teamspeak.ChannelTree
