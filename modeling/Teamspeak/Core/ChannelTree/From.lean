import Teamspeak.Core.ChannelTree.Read
import Teamspeak.Core.ChannelTree.Changes

/-!
# A tree from rows

The second half of `fromChannels`: what no top-level channel reaches is hung at the
top, and every list is settled.

* `Linked`: the lists and the parents agree, with loops not yet excluded.
* `mark_spec`: what `mark` adds.
* `hangRow_spec`: hanging one channel at the top.
* `fromChannels_spec`: the tree of any rows represents a family.
-/

namespace Teamspeak.ChannelTree

/-- The lists of `draft` are those of `F`, each record is in the list of its parent, and
every list is under the top or a channel that is held. -/
structure Linked (draft : ChannelTree) (F : Family ChannelID) : Prop where
  kids : ∀ p, draft.kidsOf p = F.kids p
  id : ∀ {x c}, draft.channels.get? x = some c → c.id = x
  kid : ∀ {p x}, x ∈ F.kids p → ∃ c, draft.channels.get? x = some c ∧ c.parentID = p
  held : ∀ {x c}, draft.channels.get? x = some c → x ∈ F.kids c.parentID
  known : ∀ {p x}, x ∈ F.kids p → Known draft p
  no_top : draft.channels.get? topChannel = none

namespace Linked

variable {draft : ChannelTree} {F : Family ChannelID} {p x : ChannelID}

theorem ne_top (h : Linked draft F) (hx : x ∈ F.kids p) : x ≠ topChannel := by
  rintro rfl
  obtain ⟨c, hc, -⟩ := h.kid hx
  rw [h.no_top] at hc
  cases hc

theorem mem_heldIds (h : Linked draft F) (hx : x ∈ F.kids p) : x ∈ draft.heldIds := by
  obtain ⟨c, hc, -⟩ := h.kid hx
  exact ChannelTree.mem_heldIds hc

theorem holds (h : Linked draft F)
    (hreach : ∀ x c, draft.channels.get? x = some c → F.Reach topChannel x) :
    Holds draft F noneLoose where
  kids := h.kids
  id := h.id
  kid := h.kid
  held hc := Or.inr (h.held hc)
  loose_held hl := hl.elim
  no_top := h.no_top
  rooted := by
    refine ⟨?_, ?_⟩
    · rintro r q (rfl | hl) hmem
      · exact h.ne_top hmem rfl
      · exact hl
    · intro q x hx
      obtain ⟨c, hc, -⟩ := h.kid hx
      exact ⟨topChannel, Or.inl rfl,
        ((hreach x c hc).through_parent hx).resolve_left fun heq => h.ne_top hx heq.symm⟩

end Linked

/-! ### Marking -/

/-- `reachable` once the channels below `p` are added to `before`. -/
structure Marked (F : Family ChannelID) (p : ChannelID) (before reachable : List ChannelID) :
    Prop where
  subset : before ⊆ reachable
  kids : F.kids p ⊆ reachable
  below : ∀ x ∈ reachable, x ∈ before ∨ F.Reach p x ∧ F.kids x ⊆ reachable

/-- What `mark` does with `n` steps, where fewer than that are still to be marked. -/
def MarkSpec (F : Family ChannelID) (kids : InsertionMap ChannelID (List ChannelID))
    (U : Finset ChannelID) (n : Nat) : Prop :=
  ∀ p before, (U \ before.toFinset).card < n →
    ∃ reachable, mark kids n p before = some reachable ∧ Marked F p before reachable

section Mark

variable {F : Family ChannelID} {kids : InsertionMap ChannelID (List ChannelID)}
  {U : Finset ChannelID}

theorem card_sdiff_cons {x : ChannelID} {before : List ChannelID} (hx : x ∈ U)
    (hnew : x ∉ before) :
    (U \ (x :: before).toFinset).card < (U \ before.toFinset).card := by
  apply Finset.card_lt_card
  rw [Finset.ssubset_iff_of_subset]
  · exact ⟨x, Finset.mem_sdiff.mpr ⟨hx, by simpa using hnew⟩, by simp⟩
  · intro y hy
    simp only [List.toFinset_cons, Finset.mem_sdiff, Finset.mem_insert, not_or] at hy
    exact Finset.mem_sdiff.mpr ⟨hy.1, hy.2.2⟩

/-- The loop over a list of children, each marked with all below it. -/
theorem foldlM_mark {n : Nat} (ih : MarkSpec F kids U n) {list : List ChannelID}
    (hU : ∀ x ∈ list, x ∈ U) {before : List ChannelID}
    (hcard : (U \ before.toFinset).card ≤ n) :
    ∃ reachable, list.foldlM
        (fun reachable id =>
          if id ∈ reachable then some reachable else mark kids n id (id :: reachable)) before =
        some reachable ∧
      before ⊆ reachable ∧ list ⊆ reachable ∧
      ∀ x ∈ reachable, x ∈ before ∨ (∃ c ∈ list, F.Reach c x) ∧ F.kids x ⊆ reachable := by
  induction list generalizing before with
  | nil => exact ⟨before, rfl, List.Subset.refl _, List.nil_subset _, fun x hx => Or.inl hx⟩
  | cons id list ihl =>
    obtain ⟨mid, hmid, hsub, hin, hbelow⟩ : ∃ mid,
        (if id ∈ before then some before else mark kids n id (id :: before)) = some mid ∧
        before ⊆ mid ∧ id ∈ mid ∧
        ∀ x ∈ mid, x ∈ before ∨ F.Reach id x ∧ F.kids x ⊆ mid := by
      by_cases hseen : id ∈ before
      · exact ⟨before, if_pos hseen, List.Subset.refl _, hseen, fun x hx => Or.inl hx⟩
      · have hlt := card_sdiff_cons (hU id List.mem_cons_self) hseen
        obtain ⟨mid, hmid, hmarked⟩ := ih id (id :: before) (by omega)
        refine ⟨mid, (if_neg hseen).trans hmid,
          fun x hx => hmarked.subset (List.mem_cons_of_mem _ hx),
          hmarked.subset List.mem_cons_self, ?_⟩
        intro x hx
        rcases hmarked.below x hx with hx | hx
        · rcases List.mem_cons.mp hx with rfl | hx
          · exact Or.inr ⟨Family.Reach.refl, hmarked.kids⟩
          · exact Or.inl hx
        · exact Or.inr hx
    have hcard' : (U \ mid.toFinset).card ≤ n := by
      refine (Finset.card_le_card ?_).trans hcard
      apply Finset.sdiff_subset_sdiff (Finset.Subset.refl U)
      intro x hx
      exact List.mem_toFinset.mpr (hsub (List.mem_toFinset.mp hx))
    obtain ⟨reachable, hreachable, hsub', hin', hbelow'⟩ :=
      ihl (fun x hx => hU x (List.mem_cons_of_mem _ hx)) hcard'
    refine ⟨reachable, ?_, List.Subset.trans hsub hsub', ?_, ?_⟩
    · rw [List.foldlM_cons, hmid]
      exact hreachable
    · intro x hx
      rcases List.mem_cons.mp hx with rfl | hx
      · exact hsub' hin
      · exact hin' hx
    · intro x hx
      rcases hbelow' x hx with hx | ⟨⟨c, hc, hreach⟩, hkids⟩
      · rcases hbelow x hx with hx | ⟨hreach, hkids⟩
        · exact Or.inl hx
        · exact Or.inr ⟨⟨id, List.mem_cons_self, hreach⟩, List.Subset.trans hkids hsub'⟩
      · exact Or.inr ⟨⟨c, List.mem_cons_of_mem _ hc, hreach⟩, hkids⟩

/-- **Marking ends**, and adds what is below a channel. -/
theorem mark_spec (hkids : ∀ p, (kids.get? p).getD [] = F.kids p)
    (hU : ∀ p, ∀ x ∈ F.kids p, x ∈ U) (n : Nat) : MarkSpec F kids U n := by
  induction n with
  | zero => exact fun _ _ hcard => absurd hcard (Nat.not_lt_zero _)
  | succ n ih =>
    intro p before hcard
    obtain ⟨reachable, hreachable, hsub, hin, hbelow⟩ :=
      foldlM_mark ih (hU p) (Nat.le_of_lt_succ hcard)
    refine ⟨reachable, ?_, hsub, hin, ?_⟩
    · rw [mark, hkids]
      exact hreachable
    · intro x hx
      rcases hbelow x hx with hx | ⟨⟨c, hc, hreach⟩, hkids⟩
      · exact Or.inl hx
      · exact Or.inr ⟨(Family.reach_of_mem hc).trans hreach, hkids⟩

end Mark

/-! ### Hanging at the top -/

/-- `reachable` is closed, and the top reaches all of it. -/
structure Reachable (F : Family ChannelID) (reachable : List ChannelID) : Prop where
  top : F.kids topChannel ⊆ reachable
  closed : ∀ x ∈ reachable, F.kids x ⊆ reachable
  reach : ∀ x ∈ reachable, F.Reach topChannel x

/-- What the top reaches is marked. -/
theorem Reachable.mem {F : Family ChannelID} {reachable : List ChannelID}
    (h : Reachable F reachable) {x : ChannelID} (hx : F.Reach topChannel x) :
    x = topChannel ∨ x ∈ reachable := by
  induction hx with
  | refl => exact Or.inl rfl
  | tail _ hc ih =>
    rcases ih with rfl | hb
    · exact Or.inr (h.top hc)
    · exact Or.inr (h.closed _ hb hc)

theorem hangRow_of_mem {draft : ChannelTree} {reachable : List ChannelID} {row : Channel}
    (h : row.id ∈ reachable) : hangRow (draft, reachable) row = some (draft, reachable) := by
  unfold hangRow
  simp [h]

/-- The draft with a channel taken from its list and hung at the top. -/
def hung (draft : ChannelTree) (c : Channel) (list : List ChannelID) : ChannelTree where
  kids :=
    (draft.kids.set c.parentID (list.filter fun id => id ≠ c.id)).set topChannel
      (((draft.kids.set c.parentID (list.filter fun id => id ≠ c.id)).get? topChannel).getD [] ++
        [c.id])
  channels := draft.channels.set c.id { c with parentID := topChannel }
  consistent := false

theorem hangRow_eq {draft : ChannelTree} {reachable marked : List ChannelID} {row c : Channel}
    {list : List ChannelID} (hnew : row.id ∉ reachable)
    (hc : draft.channels.get? row.id = some c) (hlist : draft.kids.get? c.parentID = some list)
    (hmark : mark (hung draft c list).kids (hung draft c list).steps c.id (c.id :: reachable) =
      some marked) :
    hangRow (draft, reachable) row = some (hung draft c list, marked) := by
  unfold hangRow
  simp only [if_neg hnew, hc, hlist, Option.bind_eq_bind, Option.bind_some, Option.pure_def]
  show Option.bind (mark (hung draft c list).kids (hung draft c list).steps c.id
    (c.id :: reachable)) _ = _
  rw [hmark]
  rfl

theorem Linked.get?_kids {draft : ChannelTree} {F : Family ChannelID} (h : Linked draft F)
    {p x : ChannelID} (hx : x ∈ F.kids p) : draft.kids.get? p = some (F.kids p) := by
  have hkids := h.kids p
  unfold kidsOf at hkids
  cases hget : draft.kids.get? p with
  | none =>
    rw [hget] at hkids
    exact absurd (hkids ▸ hx) List.not_mem_nil
  | some list =>
    rw [hget] at hkids
    exact congrArg some hkids

section Hang

variable {draft : ChannelTree} {F : Family ChannelID} {reachable : List ChannelID}
  {c : Channel} (h : Linked draft F) (hr : Reachable F reachable)
  (hc : draft.channels.get? c.id = some c) (hnew : c.id ∉ reachable)
include h hr hc hnew

theorem parent_ne_top : c.parentID ≠ topChannel := by
  intro htop
  exact hnew (hr.top (htop ▸ h.held hc))

theorem linked_hung : ∃ G : Family ChannelID, Linked (hung draft c (F.kids c.parentID)) G ∧
    (∀ q y, y ∈ G.kids q ↔ y = c.id ∧ q = topChannel ∨ y ∈ F.kids q ∧ y ≠ c.id) := by
  have hmem := h.held hc
  have hparent := parent_ne_top h hr hc hnew
  have hnone : ∀ q, c.id ∉ (F.detach c.id).kids q := fun q hx => (Family.mem_detach.mp hx).2 rfl
  have htop : (F.detach c.id).kids topChannel = F.kids topChannel :=
    Family.detach_of_not_mem fun hx => hnew (hr.top hx)
  obtain ⟨G, hG⟩ : ∃ G, G = (F.detach c.id).attach topChannel c.id
      ((F.detach c.id).kids topChannel ++ [c.id]) (List.perm_append_singleton _ _) hnone :=
    ⟨_, rfl⟩
  have hkids : ∀ q y, y ∈ G.kids q ↔ y = c.id ∧ q = topChannel ∨ y ∈ F.kids q ∧ y ≠ c.id := by
    intro q y
    rw [hG, Family.mem_attach, Family.mem_detach]
  have hrecords : ∀ y, (hung draft c (F.kids c.parentID)).channels.get? y =
      if c.id = y then some { c with parentID := topChannel } else draft.channels.get? y :=
    fun y => InsertionMap.get?_set ..
  refine ⟨G, ⟨?_, ?_, ?_, ?_, ?_, ?_⟩, hkids⟩
  · intro q
    unfold kidsOf hung
    rw [InsertionMap.get?_set]
    by_cases hq : topChannel = q
    · rw [if_pos hq, ← hq, hG, Family.attach_self, htop, InsertionMap.get?_set_ne _ _ hparent]
      exact congrArg (· ++ [c.id]) (h.kids topChannel)
    · rw [if_neg hq, hG, Family.attach_of_ne fun heq => hq heq.symm, InsertionMap.get?_set]
      by_cases hqp : c.parentID = q
      · rw [if_pos hqp, ← hqp]
        rfl
      · rw [if_neg hqp, Family.detach_of_not_mem fun hx => hqp (F.unique hmem hx)]
        exact h.kids q
  · intro y d hd
    rw [hrecords] at hd
    by_cases hy : c.id = y
    · rw [if_pos hy] at hd
      cases hd
      exact hy
    · rw [if_neg hy] at hd
      exact h.id hd
  · intro q y hy
    rw [hrecords]
    rcases (hkids q y).mp hy with ⟨rfl, rfl⟩ | ⟨hy, hne⟩
    · exact ⟨_, if_pos rfl, rfl⟩
    · rw [if_neg fun heq => hne heq.symm]
      exact h.kid hy
  · intro y d hd
    rw [hrecords] at hd
    rw [hkids]
    by_cases hy : c.id = y
    · rw [if_pos hy] at hd
      cases hd
      exact Or.inl ⟨hy.symm, rfl⟩
    · rw [if_neg hy] at hd
      exact Or.inr ⟨h.held hd, fun heq => hy heq.symm⟩
  · intro q y hy
    rcases (hkids q y).mp hy with ⟨-, rfl⟩ | ⟨hy, -⟩
    · exact Or.inl rfl
    · refine (h.known hy).imp_right ?_
      rintro ⟨d, hd⟩
      rw [hrecords]
      by_cases hq : c.id = q
      · exact ⟨_, if_pos hq⟩
      · exact ⟨d, (if_neg hq).trans hd⟩
  · rw [hrecords, if_neg (h.ne_top hmem)]
    exact h.no_top

/-- **A channel that is not marked** comes to the end of the top level, and is marked
with all below it. -/
theorem hangRow_spec {row : Channel} (hrow : row.id = c.id) :
    ∃ next G marked, hangRow (draft, reachable) row = some (next, marked) ∧ Linked next G ∧
      Reachable G marked ∧ reachable ⊆ marked ∧ c.id ∈ marked ∧
      ∀ x, (∃ d, next.channels.get? x = some d) ↔ ∃ d, draft.channels.get? x = some d := by
  have hmem := h.held hc
  obtain ⟨G, hlinked, hkids⟩ := linked_hung h hr hc hnew
  obtain ⟨marked, hmark, hmarked⟩ := mark_spec hlinked.kids (fun _ _ => hlinked.mem_heldIds)
    (hung draft c (F.kids c.parentID)).steps c.id (c.id :: reachable)
    ((Finset.card_le_card Finset.sdiff_subset).trans_lt (card_heldIds_lt _))
  have hsub : reachable ⊆ marked := fun x hx => hmarked.subset (List.mem_cons_of_mem _ hx)
  have hself : c.id ∈ marked := hmarked.subset List.mem_cons_self
  -- a path from the top that was there is there still: it stays in what was marked
  have hold : ∀ x, F.Reach topChannel x → (x = topChannel ∨ x ∈ reachable) ∧
      G.Reach topChannel x := by
    intro x hx
    induction hx with
    | refl => exact ⟨Or.inl rfl, Family.Reach.refl⟩
    | @tail a b _ hb ih =>
      have hmarkedb : b ∈ reachable := by
        rcases ih.1 with rfl | ha
        · exact hr.top hb
        · exact hr.closed _ ha hb
      refine ⟨Or.inr hmarkedb, ih.2.child ((hkids a b).mpr (Or.inr ⟨hb, ?_⟩))⟩
      rintro rfl
      exact hnew hmarkedb
  have hhang : G.Reach topChannel c.id :=
    Family.reach_of_mem ((hkids _ _).mpr (Or.inl ⟨rfl, rfl⟩))
  refine ⟨_, G, marked, hangRow_eq (hrow ▸ hnew) (hrow ▸ hc) (h.get?_kids hmem) hmark, hlinked,
    ⟨?_, ?_, ?_⟩, hsub, hself, ?_⟩
  · intro x hx
    rcases (hkids _ _).mp hx with ⟨rfl, -⟩ | ⟨hx, -⟩
    · exact hself
    · exact hsub (hr.top hx)
  · intro x hx y hy
    rcases hmarked.below x hx with hx | ⟨-, hclosed⟩
    · rcases List.mem_cons.mp hx with rfl | hx
      · exact hmarked.kids hy
      · rcases (hkids _ _).mp hy with ⟨rfl, -⟩ | ⟨hy, -⟩
        · exact hself
        · exact hsub (hr.closed x hx hy)
    · exact hclosed hy
  · intro x hx
    rcases hmarked.below x hx with hx | ⟨hreach, -⟩
    · rcases List.mem_cons.mp hx with rfl | hx
      · exact hhang
      · exact (hold x (hr.reach x hx)).2
    · exact hhang.trans hreach
  · intro x
    show (∃ d, (draft.channels.set _ _).get? x = some d) ↔ _
    rw [InsertionMap.get?_set]
    by_cases hx : c.id = x
    · rw [if_pos hx, ← hx]
      exact ⟨fun _ => ⟨c, hc⟩, fun _ => ⟨_, rfl⟩⟩
    · rw [if_neg hx]

end Hang

/-- **Every channel is hung** where the top reaches it. -/
theorem foldlM_hangRow {rows : List Channel} {draft : ChannelTree} {F : Family ChannelID}
    {reachable : List ChannelID} (h : Linked draft F) (hr : Reachable F reachable)
    (hrows : ∀ row ∈ rows, ∃ c, draft.channels.get? row.id = some c) :
    ∃ next G marked, rows.foldlM hangRow (draft, reachable) = some (next, marked) ∧
      Linked next G ∧ Reachable G marked ∧ reachable ⊆ marked ∧ (∀ row ∈ rows, row.id ∈ marked) ∧
      ∀ x, (∃ d, next.channels.get? x = some d) ↔ ∃ d, draft.channels.get? x = some d := by
  induction rows generalizing draft F reachable with
  | nil => exact ⟨draft, F, reachable, rfl, h, hr, List.Subset.refl _,
      fun row hrow => absurd hrow List.not_mem_nil, fun _ => Iff.rfl⟩
  | cons row rows ih =>
    obtain ⟨mid, G, marked, hmid, hlinked, hmarked, hsub, hin, hheld⟩ : ∃ mid G marked,
        hangRow (draft, reachable) row = some (mid, marked) ∧ Linked mid G ∧
        Reachable G marked ∧ reachable ⊆ marked ∧ row.id ∈ marked ∧
        ∀ x, (∃ d, mid.channels.get? x = some d) ↔ ∃ d, draft.channels.get? x = some d := by
      by_cases hseen : row.id ∈ reachable
      · exact ⟨draft, F, reachable, hangRow_of_mem hseen, h, hr, List.Subset.refl _, hseen,
          fun _ => Iff.rfl⟩
      · obtain ⟨c, hc⟩ := hrows row List.mem_cons_self
        have hid := h.id hc
        rw [← hid] at hc hseen ⊢
        exact hangRow_spec h hr hc hseen hid.symm
    obtain ⟨next, G', marked', hnext, hlinked', hmarked', hsub', hall, hheld'⟩ :=
      ih hlinked hmarked fun r hrow => (hheld r.id).mpr (hrows r (List.mem_cons_of_mem _ hrow))
    refine ⟨next, G', marked', ?_, hlinked', hmarked', List.Subset.trans hsub hsub', ?_,
      fun x => (hheld' x).trans (hheld x)⟩
    · rw [List.foldlM_cons, hmid]
      exact hnext
    · intro r hrow
      rcases List.mem_cons.mp hrow with rfl | hrow
      · exact hsub' hin
      · exact hall r hrow

/-- Where the top reaches every channel, none is hung. -/
theorem foldlM_hangRow_of_mem {rows : List Channel} {draft : ChannelTree}
    {reachable : List ChannelID} (h : ∀ row ∈ rows, row.id ∈ reachable) :
    rows.foldlM hangRow (draft, reachable) = some (draft, reachable) := by
  induction rows with
  | nil => rfl
  | cons row rows ih =>
    rw [List.foldlM_cons, hangRow_of_mem (h row List.mem_cons_self)]
    exact ih fun r hr => h r (List.mem_cons_of_mem _ hr)

/-! ### Settling every list -/

theorem foldlM_settleGroup {groups : List (ChannelID × List ChannelID)}
    (hnodup : (groups.map Prod.fst).Nodup) {draft : ChannelTree} {F : Family ChannelID}
    (h : Holds draft F noneLoose) (hgroups : ∀ group ∈ groups, F.kids group.1 = group.2)
    (hordered : ∀ p ∉ groups.map Prod.fst, Ordered draft F p)
    (hnonempty : ∀ p ∉ groups.map Prod.fst, draft.kids.get? p ≠ some []) :
    ∃ next, groups.foldlM settleGroup draft = some next ∧ Represents next F noneLoose ∧
      next.consistent = draft.consistent := by
  induction groups generalizing draft with
  | nil => exact ⟨draft, rfl, ⟨h, fun p => hordered p List.not_mem_nil,
      fun p => hnonempty p List.not_mem_nil⟩, rfl⟩
  | cons group groups ih =>
    rw [List.map_cons, List.nodup_cons] at hnodup
    have hlist := hgroups group List.mem_cons_self
    have hkeys : ∀ p, p ∉ groups.map Prod.fst → p ≠ group.1 →
        p ∉ (group :: groups).map Prod.fst := by
      intro p hp hne hmem
      exact (List.mem_cons.mp hmem).elim hne hp
    obtain ⟨mid, hmid, hholds, hconsistent, hord, hne⟩ : ∃ mid,
        settleGroup draft group = some mid ∧ Holds mid F noneLoose ∧
        mid.consistent = draft.consistent ∧
        (∀ p ∉ groups.map Prod.fst, Ordered mid F p) ∧
        ∀ p ∉ groups.map Prod.fst, mid.kids.get? p ≠ some [] := by
      unfold settleGroup
      by_cases hnil : group.2 = []
      · rw [if_pos hnil]
        refine ⟨_, rfl, ⟨?_, h.id, h.kid, h.held, h.loose_held, h.no_top, h.rooted⟩, rfl, ?_, ?_⟩
        · intro p
          unfold kidsOf
          rw [InsertionMap.get?_delete]
          by_cases hp : group.1 = p
          · rw [if_pos hp, ← hp, hlist, hnil]
            rfl
          · rw [if_neg hp]
            exact h.kids p
        · intro p hp
          by_cases hpg : p = group.1
          · intro x hx
            rw [hpg, hlist, hnil] at hx
            exact absurd hx List.not_mem_nil
          · exact hordered p (hkeys p hp hpg)
        · intro p hp
          rw [InsertionMap.get?_delete]
          by_cases hpg : group.1 = p
          · rw [if_pos hpg]
            exact nofun
          · rw [if_neg hpg]
            exact hnonempty p (hkeys p hp fun heq => hpg heq.symm)
      · rw [if_neg hnil]
        obtain ⟨mid, hmid, hholds, hkids, hconsistent, -, hself, hothers⟩ :=
          settle_spec h group.1
        refine ⟨mid, hlist ▸ hmid, hholds, hconsistent, ?_, ?_⟩
        · intro p hp
          by_cases hpg : p = group.1
          · exact hpg ▸ hself
          · exact hothers p hpg (hordered p (hkeys p hp hpg))
        · intro p hp
          rw [hkids]
          by_cases hpg : p = group.1
          · intro heq
            have hempty := h.kids p
            rw [kidsOf, heq, hpg, hlist] at hempty
            exact hnil hempty.symm
          · exact hnonempty p (hkeys p hp hpg)
    obtain ⟨next, hnext, hrep, hsame⟩ :=
      ih hnodup.2 hholds (fun g hg => hgroups g (List.mem_cons_of_mem _ hg)) hord hne
    refine ⟨next, ?_, hrep, hsame.trans hconsistent⟩
    rw [List.foldlM_cons, hmid]
    exact hnext

/-- **Settling all the lists of a draft** makes it represent. -/
theorem settle_all {draft : ChannelTree} {F : Family ChannelID} (h : Holds draft F noneLoose) :
    ∃ next, draft.kids.entries.foldlM settleGroup draft = some next ∧
      Represents next F noneLoose ∧ next.consistent = draft.consistent := by
  have hnone : ∀ p, p ∉ draft.kids.entries.map Prod.fst → draft.kids.get? p = none :=
    fun p => InsertionMap.get?_eq_none.mpr
  apply foldlM_settleGroup draft.kids.nodup h
  · intro group hgroup
    rw [← h.kids, kidsOf, InsertionMap.mem_entries.mp hgroup]
    rfl
  · intro p hp x hx
    rw [← h.kids, kidsOf, hnone p hp] at hx
    exact absurd hx List.not_mem_nil
  · intro p hp
    rw [hnone p hp]
    intro heq
    cases heq

/-! ### The tree of any rows -/

/-- What is under `p` once the rows are filed. -/
def group (st : Rows) (p : ChannelID) : List Channel :=
  st.rows.filter fun row => filedUnder st.channels row = p

theorem group_entries {st : Rows} {grouping : Grouping}
    (h : Grouped st.channels st.consistent st.rows grouping) {p : ChannelID}
    {list : List Channel} (hmem : (p, list) ∈ grouping.byParent.entries) :
    list = group st p := by
  have hgroups := h.groups p
  rw [InsertionMap.mem_entries.mp hmem] at hgroups
  exact hgroups

theorem linked_of_sorted {st : Rows} (hok : RowsOk st) {grouping : Grouping}
    (h : Grouped st.channels st.consistent st.rows grouping) {draft : ChannelTree}
    (hchannels : draft.channels = grouping.draft.channels)
    (hlists : ∀ p, (draft.kidsOf p).Perm ((group st p).map Channel.id)) :
    ∃ F : Family ChannelID, Linked draft F := by
  have hmem : ∀ {p x}, x ∈ draft.kidsOf p ↔
      ∃ row ∈ st.rows, filedUnder st.channels row = p ∧ row.id = x := by
    intro p x
    rw [(hlists p).mem_iff, group, List.mem_map]
    simp only [List.mem_filter, decide_eq_true_eq, and_assoc]
  have hrecord : ∀ row ∈ st.rows, draft.channels.get? row.id = some (filed st.channels row) :=
    fun row hrow => hchannels ▸ h.filed row hrow
  have hheld : ∀ x, (∃ c, draft.channels.get? x = some c) ↔ ∃ c, st.channels.get? x = some c := by
    intro x
    rw [← InsertionMap.has_iff, ← InsertionMap.has_iff, hchannels, h.has]
  have hrow : ∀ {x c}, draft.channels.get? x = some c →
      ∃ row ∈ st.rows, row.id = x ∧ c = filed st.channels row := by
    intro x c hc
    obtain ⟨row, hget⟩ := (hheld x).mp ⟨c, hc⟩
    obtain ⟨hmem₀, rfl⟩ := hok.mem_rows hget
    rw [hrecord row hmem₀] at hc
    exact ⟨row, hmem₀, rfl, (Option.some.inj hc).symm⟩
  let F : Family ChannelID :=
    { kids := draft.kidsOf
      nodup := fun p => (hlists p).nodup_iff.mpr
        (hok.nodup.sublist (List.filter_sublist.map _))
      unique := by
        intro p q x hp hq
        obtain ⟨row, hr, rfl, rfl⟩ := hmem.mp hp
        obtain ⟨row', hr', rfl, hid⟩ := hmem.mp hq
        have := (hok.get?_eq hr').symm.trans (hid ▸ hok.get?_eq hr)
        rw [Option.some.inj this] }
  refine ⟨F, fun _ => rfl, ?_, ?_, ?_, ?_, ?_⟩
  · intro x c hc
    obtain ⟨row, -, rfl, rfl⟩ := hrow hc
    rfl
  · intro p x hx
    obtain ⟨row, hr, rfl, rfl⟩ := hmem.mp hx
    exact ⟨_, hrecord row hr, rfl⟩
  · intro x c hc
    obtain ⟨row, hr, rfl, rfl⟩ := hrow hc
    exact hmem.mpr ⟨row, hr, rfl, rfl⟩
  · intro p x hx
    obtain ⟨row, hr, rfl, rfl⟩ := hmem.mp hx
    by_cases hmis : Misplaced st.channels row
    · exact Or.inl (if_pos hmis)
    · rw [show filedUnder st.channels row = row.parentID from if_neg hmis]
      by_cases htop : row.parentID = topChannel
      · exact Or.inl htop
      · have hhas : st.channels.has row.parentID = true := by
          by_contra hno
          exact hmis ⟨htop, Or.inr (Bool.eq_false_iff.mpr hno)⟩
        exact Or.inr ((hheld _).mpr (InsertionMap.has_iff.mp hhas))
  · cases hget : draft.channels.get? topChannel with
    | none => rfl
    | some c =>
      obtain ⟨row, hr, hid, -⟩ := hrow hget
      exact absurd hid (hok.ne_top row hr)

/-- From nothing, `mark` finds just what the top reaches. -/
theorem reachable_mark {draft : ChannelTree} {F : Family ChannelID} (h : Linked draft F) :
    ∃ reachable, mark draft.kids draft.steps topChannel [] = some reachable ∧
      Reachable F reachable := by
  obtain ⟨reachable, hmark, hmarked⟩ := mark_spec h.kids (fun _ _ => h.mem_heldIds) draft.steps
    topChannel [] ((Finset.card_le_card Finset.sdiff_subset).trans_lt (card_heldIds_lt draft))
  have hbelow : ∀ x ∈ reachable, F.Reach topChannel x ∧ F.kids x ⊆ reachable :=
    fun x hx => (hmarked.below x hx).resolve_left List.not_mem_nil
  exact ⟨reachable, hmark, hmarked.kids, fun x hx => (hbelow x hx).2, fun x hx => (hbelow x hx).1⟩

/-- The rows of `channels` once they are filed. -/
def grouping (channels : List Channel) : Grouping :=
  (channels.foldl addRow {}).rows.foldl groupRow
    { draft :=
      { channels := (channels.foldl addRow {}).channels
        consistent := (channels.foldl addRow {}).consistent } }

theorem fromChannels_eq {channels : List Channel} {sorted draft tree : ChannelTree}
    {reachable marked : List ChannelID}
    (hsorted : (grouping channels).byParent.entries.foldlM sortGroup (grouping channels).draft =
      some sorted)
    (hmark : mark sorted.kids sorted.steps topChannel [] = some reachable)
    (hhang : (channels.foldl addRow {}).rows.foldlM hangRow (sorted, reachable) =
      some (draft, marked))
    (hsettle : draft.kids.entries.foldlM settleGroup draft = some tree) :
    fromChannels channels = some tree := by
  unfold grouping at hsorted
  unfold fromChannels
  simp only [hsorted, hmark, hhang, hsettle, Option.bind_eq_bind, Option.bind_some]

/-- **Every list is sorted**, each as `P` says; where `Q` holds no list has a flaw. -/
theorem sorted_spec (channels : List Channel) {P : ChannelID → List ChannelID → Prop} {Q : Prop}
    (hsort : ∀ p b, ∃ st, sortSiblings (group (channels.foldl addRow {}) p) b = some st ∧
      P p st.out ∧ (Q → st.consistent = b))
    (hnil : ∀ p, group (channels.foldl addRow {}) p = [] → P p []) :
    ∃ sorted, (grouping channels).byParent.entries.foldlM sortGroup (grouping channels).draft =
        some sorted ∧
      sorted.channels = (grouping channels).draft.channels ∧
      (Q → sorted.consistent = (grouping channels).draft.consistent) ∧
      ∀ p, P p (sorted.kidsOf p) := by
  have hgrouped : Grouped _ _ _ (grouping channels) := grouped_read (rowsOk_read channels).1
  obtain ⟨sorted, hsorted, hchannels, hconsistent, hin, hout⟩ := foldlM_sortGroup
    (P := P) (Q := Q) (InsertionMap.nodup _)
    (by
      rintro ⟨p, list⟩ hgroup b
      obtain rfl := group_entries hgrouped hgroup
      exact hsort p b)
    (grouping channels).draft
  refine ⟨sorted, hsorted, hchannels, hconsistent, fun p => ?_⟩
  unfold kidsOf
  cases hget : (grouping channels).byParent.get? p with
  | none =>
    have hgroups := hgrouped.groups p
    rw [hget] at hgroups
    rw [hout p (InsertionMap.get?_eq_none.mp hget), hgrouped.kids]
    exact hnil p hgroups.symm
  | some list =>
    obtain ⟨out, hp, hP⟩ := hin p (List.mem_map_of_mem (InsertionMap.mem_entries.mpr hget))
    rw [hp]
    exact hP

/-- **The tree of any rows** represents a family, and holds the ids of the rows but for 0. -/
theorem fromChannels_spec (channels : List Channel) :
    ∃ tree F, fromChannels channels = some tree ∧ Represents tree F noneLoose ∧
      ∀ x, (∃ c, tree.channels.get? x = some c) ↔
        x ≠ topChannel ∧ x ∈ channels.map Channel.id := by
  obtain ⟨hok, hids⟩ := rowsOk_read channels
  have hgrouped : Grouped _ _ _ (grouping channels) := grouped_read hok
  obtain ⟨sorted, hsorted, hchannels, -, hlists⟩ := sorted_spec channels
    (P := fun p out => out.Perm ((group (channels.foldl addRow {}) p).map Channel.id))
    (Q := False)
    (by
      intro p b
      obtain ⟨st, hst, hperm⟩ := sortSiblings_perm (group (channels.foldl addRow {}) p)
        (hok.nodup.sublist (List.filter_sublist.map _)) b
      exact ⟨st, hst, hperm, False.elim⟩)
    (by
      intro p hnil
      rw [hnil]
      exact List.Perm.refl _)
  obtain ⟨F, hlinked⟩ := linked_of_sorted hok hgrouped hchannels hlists
  obtain ⟨reachable, hmark, hreachable⟩ := reachable_mark hlinked
  have hheld : ∀ x, (∃ c, sorted.channels.get? x = some c) ↔
      x ∈ (channels.foldl addRow {}).rows.map Channel.id := by
    intro x
    rw [← hok.held_iff, ← InsertionMap.has_iff, ← InsertionMap.has_iff, hchannels, hgrouped.has]
  obtain ⟨draft, G, marked, hhang, hlinkedG, hmarked, -, hall, hsame⟩ :=
    foldlM_hangRow hlinked hreachable fun row hrow =>
      (hheld row.id).mpr (List.mem_map_of_mem hrow)
  have hholds := hlinkedG.holds (by
    intro x c hc
    obtain ⟨row, hrow, rfl⟩ := List.mem_map.mp ((hheld x).mp ((hsame x).mp ⟨c, hc⟩))
    exact hmarked.reach row.id (hall row hrow))
  obtain ⟨tree, htree, hrep, -⟩ := settle_all hholds
  refine ⟨tree, G, fromChannels_eq hsorted hmark hhang htree, hrep, fun x => ?_⟩
  rw [← hids x, ← hheld x, ← hsame x, hrep.held_iff, hholds.held_iff]

end Teamspeak.ChannelTree
