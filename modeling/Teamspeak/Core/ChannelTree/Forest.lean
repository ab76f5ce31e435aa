import Mathlib.Order.WellFoundedSet
import Teamspeak.Core.ChannelTree.Rebuild

/-!
# Which rows make a consistent tree

`fromChannels` repairs whatever rows it is given, and says so.  It says nothing just when
there was nothing to repair: the rows are a forest, and the siblings of each parent name
one another in one chain.

* `ValidForest`
* `ValidForest.rowsOf`: such rows describe a family.
* `chained_of_sortSiblings`: siblings in which no flaw is found are a chain.
* `fromChannels_consistent_iff`
-/

namespace Teamspeak.ChannelTree

/-- The rows under one parent. -/
def siblingsOf (rows : List Channel) (parent : ChannelID) : List Channel :=
  rows.filter fun row => row.parentID = parent

/-- A row of `child` names `parent`. -/
def NamesParent (rows : List Channel) (parent child : ChannelID) : Prop :=
  ∃ row ∈ rows, row.id = child ∧ row.parentID = parent

/-- Rows that are a forest, with the siblings of each parent in one chain. -/
structure ValidForest (rows : List Channel) : Prop where
  nodup : (rows.map Channel.id).Nodup
  ne_top : ∀ row ∈ rows, row.id ≠ topChannel
  parent : ∀ row ∈ rows, row.parentID = topChannel ∨ row.parentID ∈ rows.map Channel.id
  acyclic : ∀ x, ¬ Relation.TransGen (NamesParent rows) x x
  /-- The siblings of a parent, each after the one that it names, the first after 0. -/
  chain : ∀ p, ∃ chain, (siblingsOf rows p).Perm chain ∧ Chained topChannel chain
  /-- No two siblings name the same predecessor. -/
  predecessors : ∀ p, ((siblingsOf rows p).map Channel.order).Nodup

/-! ### A forest is a family -/

/-- Along a chain the order of a channel is the id before it. -/
theorem Chained.order_eq {first : ChannelID} {chain : List Channel} (h : Chained first chain)
    (hnodup : (chain.map Channel.id).Nodup) {c : Channel} (hc : c ∈ chain) :
    c.order = predecessor first (chain.map Channel.id) c.id := by
  induction chain generalizing first with
  | nil => exact absurd hc List.not_mem_nil
  | cons d chain ih =>
    rw [List.map_cons, List.nodup_cons] at hnodup
    rw [List.map_cons]
    rcases List.mem_cons.mp hc with rfl | hc
    · rw [predecessor_cons_self, h.1]
    · have hne : d.id ≠ c.id := fun heq => hnodup.1 (heq ▸ List.mem_map_of_mem hc)
      rw [predecessor_cons_of_ne hne, ih h.2 hnodup.2 hc]

theorem eq_of_id {rows : List Channel} (hnodup : (rows.map Channel.id).Nodup) {c d : Channel}
    (hc : c ∈ rows) (hd : d ∈ rows) (hid : c.id = d.id) : c = d :=
  List.inj_on_of_nodup_map hnodup hc hd hid

/-- Where no channel is its own ancestor, all are below the top. -/
theorem ValidForest.induction {rows : List Channel} (h : ValidForest rows)
    {P : ChannelID → Prop} (hstep : ∀ row ∈ rows,
      (row.parentID = topChannel ∨ P row.parentID) → P row.id) : ∀ row ∈ rows, P row.id := by
  have hwf : ({x | x ∈ rows.map Channel.id} : Set ChannelID).WellFoundedOn
      (Relation.TransGen (NamesParent rows)) := by
    have : IsStrictOrder ChannelID (Relation.TransGen (NamesParent rows)) :=
      { irrefl := h.acyclic, trans := fun _ _ _ => Relation.TransGen.trans }
    exact (List.finite_toSet _).wellFoundedOn
  have hall : ∀ x ∈ {x | x ∈ rows.map Channel.id}, P x := by
    intro x hx
    refine hwf.induction hx fun y hy ih => ?_
    obtain ⟨row, hrow, rfl⟩ := List.mem_map.mp hy
    refine hstep row hrow ((h.parent row hrow).imp_right fun hparent => ?_)
    exact ih _ hparent (Relation.TransGen.single ⟨row, hrow, rfl, rfl⟩)
  exact fun row hrow => hall _ (List.mem_map_of_mem hrow)

/-- **Rows of a valid forest describe a family.** -/
theorem ValidForest.rowsOf {rows : List Channel} (h : ValidForest rows) :
    ∃ F : Family ChannelID, RowsOf F rows := by
  choose chain hperm hchain using h.chain
  have hids : ∀ p, ((siblingsOf rows p).map Channel.id).Nodup := fun p =>
    h.nodup.sublist (List.filter_sublist.map _)
  have hchainids : ∀ p, ((chain p).map Channel.id).Nodup := fun p =>
    ((hperm p).map _).nodup_iff.mp (hids p)
  have hmem : ∀ {p c}, c ∈ chain p ↔ c ∈ rows ∧ c.parentID = p := by
    intro p c
    rw [← (hperm p).mem_iff, siblingsOf, List.mem_filter, decide_eq_true_eq]
  let F : Family ChannelID :=
    { kids := fun p => (chain p).map Channel.id
      nodup := hchainids
      unique := by
        intro p q x hp hq
        obtain ⟨c, hc, rfl⟩ := List.mem_map.mp hp
        obtain ⟨d, hd, hid⟩ := List.mem_map.mp hq
        obtain ⟨hcrow, rfl⟩ := hmem.mp hc
        obtain ⟨hdrow, rfl⟩ := hmem.mp hd
        rw [eq_of_id h.nodup hdrow hcrow hid] }
  have hkid : ∀ row ∈ rows, row.id ∈ F.kids row.parentID := fun row hrow =>
    List.mem_map_of_mem (hmem.mpr ⟨hrow, rfl⟩)
  have hreach : ∀ row ∈ rows, F.Reach topChannel row.id := by
    refine h.induction fun row hrow hparent => ?_
    rcases hparent with htop | hreach
    · exact Family.reach_of_mem (htop ▸ hkid row hrow)
    · exact hreach.child (hkid row hrow)
  refine ⟨F, h.nodup, fun c hc => ⟨hkid c hc, ?_⟩, ?_, ?_, ?_⟩
  · exact (hchain c.parentID).order_eq (hchainids _) (hmem.mpr ⟨hc, rfl⟩)
  · intro p x hx
    obtain ⟨c, hc, rfl⟩ := List.mem_map.mp hx
    exact List.mem_map_of_mem (hmem.mp hc).1
  · rintro r p (rfl | hl) hr
    · obtain ⟨c, hc, htop⟩ := List.mem_map.mp hr
      exact h.ne_top c (hmem.mp hc).1 htop
    · exact hl
  · intro p x hx
    obtain ⟨c, hc, rfl⟩ := List.mem_map.mp hx
    obtain ⟨hcrow, rfl⟩ := hmem.mp hc
    refine ⟨topChannel, Or.inl rfl, ?_⟩
    rcases h.parent c hcrow with htop | hparent
    · rw [htop]
      exact Family.Reach.refl
    · obtain ⟨row, hrow, hid⟩ := List.mem_map.mp hparent
      exact hid ▸ hreach row hrow

/-! ### No flaw found in siblings -/

section Sorting

variable {siblings : List Channel}

theorem enter_consistent {after : InsertionMap ChannelID (List Channel)} {k : ChannelID}
    {st : Sorting} (h : (enter after k st).2.consistent = true) :
    st.consistent = true ∧ (enter after k st).1.length ≤ 1 := by
  unfold enter at h ⊢
  dsimp only at h ⊢
  split at h
  · cases h
  · rename_i hlength
    exact ⟨h, Nat.not_lt.mp hlength⟩

/-- A flaw that was found is not forgotten. -/
theorem followStack_consistent {after : InsertionMap ChannelID (List Channel)} {steps : Nat}
    {stack : List (List Channel)} {st next : Sorting}
    (hnext : followStack after steps stack st = some next) (h : next.consistent = true) :
    st.consistent = true := by
  induction steps generalizing stack st with
  | zero => cases hnext
  | succ steps ih =>
    rcases stack with _ | ⟨_ | ⟨channel, list⟩, stack⟩
    · obtain rfl := Option.some.inj hnext
      exact h
    · exact ih hnext
    · rw [followStack] at hnext
      split at hnext
      · exact ih hnext
      · exact (enter_consistent (ih hnext)).1

theorem followStack_nil {after : InsertionMap ChannelID (List Channel)} {steps m : Nat}
    {st next : Sorting} (hnext : followStack after steps (List.replicate m []) st = some next) :
    next = st := by
  induction m generalizing steps with
  | zero =>
    cases steps with
    | zero => cases hnext
    | succ steps => exact (Option.some.inj hnext).symm
  | succ m ih =>
    cases steps with
    | zero => cases hnext
    | succ steps => exact ih hnext

theorem length_le_one {α : Type} {list : List α} (h : list.length ≤ 1) :
    list = [] ∨ ∃ a, list = [a] := by
  rcases list with _ | ⟨a, _ | ⟨b, list⟩⟩
  · exact Or.inl rfl
  · exact Or.inr ⟨a, rfl⟩
  · exact absurd h (by simp)

/-- The ids that end a chain: the last one, or 0. -/
def chainEnd (chain : List Channel) : ChannelID :=
  ((chain.map Channel.id).getLast?).getD topChannel

theorem Chained.concat {first : ChannelID} {chain : List Channel} (h : Chained first chain)
    {c : Channel} (hc : c.order = ((chain.map Channel.id).getLast?).getD first) :
    Chained first (chain ++ [c]) := by
  induction chain generalizing first with
  | nil => exact ⟨hc, trivial⟩
  | cons d chain ih =>
    refine ⟨h.1, ih h.2 (hc.trans ?_)⟩
    rw [List.map_cons, List.getLast?_cons, Option.getD_some]

/-- Where no flaw is found, what is listed is a chain. -/
theorem chained_of_followStack
    (hkeys : ∀ c ∈ siblings, afterKey siblings c = c.order) {chain : List Channel}
    (hchain : Chained topChannel chain) (hsub : chain ⊆ siblings) {steps m : Nat}
    {frame : List Channel} {st next : Sorting}
    (hframe : frame = siblings.filter fun c => afterKey siblings c = chainEnd chain)
    (hlength : frame.length ≤ 1) (hout : st.out = chain.map Channel.id)
    (hnext : followStack (afterTable siblings) steps (frame :: List.replicate m []) st =
      some next) (h : next.consistent = true) :
    ∃ chain, next.out = chain.map Channel.id ∧ Chained topChannel chain ∧ chain ⊆ siblings := by
  induction steps generalizing chain m frame st with
  | zero => cases hnext
  | succ steps ih =>
    rcases length_le_one hlength with rfl | ⟨c, rfl⟩
    · rw [followStack_nil (m := m + 1) hnext]
      exact ⟨chain, hout, hchain, hsub⟩
    rw [followStack] at hnext
    split at hnext
    · -- it is listed already: the chain ends here
      rw [followStack_nil (m := m + 1) hnext]
      exact ⟨chain, hout, hchain, hsub⟩
    · have hmem : c ∈ siblings.filter fun c => afterKey siblings c = chainEnd chain :=
        hframe ▸ List.mem_singleton_self c
      rw [List.mem_filter, decide_eq_true_eq] at hmem
      have hentered := enter_consistent (followStack_consistent hnext h)
      refine ih (hchain.concat ((hkeys c hmem.1).symm.trans hmem.2)) ?_ ?_ hentered.2 ?_
        (m := m + 1) hnext
      · exact List.append_subset.mpr ⟨hsub, by simpa using hmem.1⟩
      · rw [enter_fst, chainEnd, List.map_append, List.map_singleton, List.getLast?_concat,
          Option.getD_some]
      · refine (enter_out (afterTable siblings) c.id _).trans ?_
        rw [List.map_append, ← hout]
        rfl

theorem foldlM_follow_consistent {after : InsertionMap ChannelID (List Channel)} {steps : Nat}
    {rest : List Channel} {st next : Sorting}
    (hnext : rest.foldlM (fun st channel =>
        if channel.id ∈ st.out then some st
        else follow after steps channel.id { out := st.out ++ [channel.id], consistent := false })
      st = some next) (h : next.consistent = true) :
    next = st ∧ ∀ c ∈ rest, c.id ∈ st.out := by
  induction rest generalizing st with
  | nil => exact ⟨(Option.some.inj hnext).symm, fun c hc => absurd hc List.not_mem_nil⟩
  | cons channel rest ih =>
    rw [List.foldlM_cons] at hnext
    obtain ⟨mid, hmid, hnext⟩ := Option.bind_eq_some_iff.mp hnext
    obtain ⟨rfl, hrest⟩ := ih hnext
    split at hmid
    · rename_i hseen
      obtain rfl := Option.some.inj hmid
      refine ⟨rfl, fun c hc => ?_⟩
      rcases List.mem_cons.mp hc with rfl | hc
      · exact hseen
      · exact hrest c hc
    · rw [follow] at hmid
      cases (enter_consistent (followStack_consistent hmid h)).1

/-- **Siblings in which no flaw is found** are one chain. -/
theorem chained_of_sortSiblings (hnodup : (siblings.map Channel.id).Nodup) {b : Bool}
    {st : Sorting} (hst : sortSiblings siblings b = some st) (h : st.consistent = true) :
    b = true ∧ ∃ chain, siblings.Perm chain ∧ Chained topChannel chain := by
  have hperm : st.out.Perm (siblings.map Channel.id) := by
    obtain ⟨st', hst', hperm⟩ := sortSiblings_perm siblings hnodup b
    rw [Option.some.inj (hst.symm.trans hst')]
    exact hperm
  rw [sortSiblings] at hst
  obtain ⟨mid, hmid, hst⟩ := Option.bind_eq_some_iff.mp hst
  obtain ⟨rfl, -⟩ := foldlM_follow_consistent hst h
  rw [follow] at hmid
  have hentered := enter_consistent (followStack_consistent hmid h)
  obtain ⟨hb, hnamed⟩ := Bool.and_eq_true_iff.mp hentered.1
  have hkeys : ∀ c ∈ siblings, afterKey siblings c = c.order := by
    intro c hc
    have hor := of_decide_eq_true (List.all_eq_true.mp hnamed c hc)
    unfold afterKey
    by_cases htop : c.order = topChannel
    · rw [if_neg fun hp => hp.1 htop, htop]
    · rw [if_pos ⟨htop, hor.resolve_left htop⟩]
  have hstart : Chained topChannel [] := trivial
  obtain ⟨chain, hout, hchain, hsub⟩ := chained_of_followStack hkeys hstart (m := 0)
    (List.nil_subset _) (enter_fst siblings topChannel _) hentered.2 (enter_out _ _ _) hmid h
  refine ⟨hb, chain, ?_, hchain⟩
  rw [hout] at hperm
  have hchainids := hperm.nodup_iff.mpr hnodup
  rw [List.perm_ext_iff_of_nodup (List.Nodup.of_map _ hnodup) (List.Nodup.of_map _ hchainids)]
  intro c
  refine ⟨fun hc => ?_, fun hc => hsub hc⟩
  obtain ⟨d, hd, hid⟩ := List.mem_map.mp (hperm.mem_iff.mpr (List.mem_map_of_mem hc))
  rwa [eq_of_id hnodup hc (hsub hd) hid.symm]

end Sorting

/-! ### No flaw found in rows -/

/-- Rows that are read without a flaw have distinct ids, none of them 0. -/
theorem distinct_of_read {channels : List Channel} {st : Rows} (h : RowsOk st)
    (hconsistent : (channels.foldl addRow st).consistent = true) :
    st.consistent = true ∧ ((st.rows ++ channels).map Channel.id).Nodup ∧
      ∀ c ∈ channels, c.id ≠ topChannel := by
  induction channels generalizing st with
  | nil =>
    rw [List.append_nil]
    exact ⟨hconsistent, h.nodup, fun c hc => absurd hc List.not_mem_nil⟩
  | cons channel channels ih =>
    obtain ⟨hstep, hnodup, htop⟩ := ih (rowsOk_addRow h channel).1 hconsistent
    unfold addRow at hstep hnodup
    split at hstep
    · cases hstep
    rename_i hne
    split at hstep
    · cases hstep
    rename_i hnew
    rw [if_neg hne, if_neg hnew] at hnodup
    refine ⟨hstep, by rwa [List.append_assoc] at hnodup, fun c hc => ?_⟩
    rcases List.mem_cons.mp hc with rfl | hc
    · exact hne
    · exact htop c hc

theorem not_misplaced_of_consistent {base : InsertionMap ChannelID Channel} {rest : List Channel}
    {st : Grouping} (hhas : ∀ x, st.draft.channels.has x = base.has x)
    (hrest : ∀ row ∈ rest, base.has row.id = true)
    (hconsistent : (rest.foldl groupRow st).draft.consistent = true) :
    st.draft.consistent = true ∧ ∀ row ∈ rest, ¬ Misplaced base row := by
  induction rest generalizing st with
  | nil => exact ⟨hconsistent, fun row hrow => absurd hrow List.not_mem_nil⟩
  | cons row rest ih =>
    have hmisplaced : (row.parentID ≠ topChannel ∧
        (row.parentID = row.id ∨ st.draft.channels.has row.parentID = false)) ↔
          Misplaced base row := by
      rw [hhas]
      exact Iff.rfl
    have hrest' : ∀ r ∈ rest, base.has r.id = true :=
      fun r hr => hrest r (List.mem_cons_of_mem _ hr)
    rw [List.foldl_cons, groupRow] at hconsistent
    by_cases hrow : Misplaced base row
    · rw [if_pos (hmisplaced.mpr hrow)] at hconsistent
      refine absurd (ih (fun x => ?_) hrest' hconsistent).1 Bool.false_ne_true
      show (st.draft.channels.set _ _).has x = _
      rw [InsertionMap.has, InsertionMap.get?_set]
      by_cases hx : row.id = x
      · rw [if_pos hx, ← hx, hrest row List.mem_cons_self, Option.isSome_some]
      · rw [if_neg hx]
        exact hhas x
    · rw [if_neg fun hp => hrow (hmisplaced.mp hp)] at hconsistent
      obtain ⟨hstep, hall⟩ :=
        @ih { st with byParent := st.byParent.push row.parentID row } hhas hrest' hconsistent
      refine ⟨hstep, fun r hr => ?_⟩
      rcases List.mem_cons.mp hr with rfl | hr
      · exact hrow
      · exact hall r hr

theorem chained_of_sorted {groups : List (ChannelID × List Channel)}
    (hnodup : ∀ group ∈ groups, (group.2.map Channel.id).Nodup) {draft next : ChannelTree}
    (hnext : groups.foldlM sortGroup draft = some next) (h : next.consistent = true) :
    draft.consistent = true ∧ ∀ group ∈ groups,
      ∃ chain, group.2.Perm chain ∧ Chained topChannel chain := by
  induction groups generalizing draft with
  | nil =>
    obtain rfl := Option.some.inj hnext
    exact ⟨h, fun group hgroup => absurd hgroup List.not_mem_nil⟩
  | cons group groups ih =>
    rw [List.foldlM_cons] at hnext
    obtain ⟨mid, hmid, hnext⟩ := Option.bind_eq_some_iff.mp hnext
    obtain ⟨hconsistent, hall⟩ := ih (fun g hg => hnodup g (List.mem_cons_of_mem _ hg)) hnext
    rw [sortGroup] at hmid
    obtain ⟨st, hst, hmid⟩ := Option.bind_eq_some_iff.mp hmid
    obtain rfl := Option.some.inj hmid
    obtain ⟨hb, hchain⟩ :=
      chained_of_sortSiblings (hnodup group List.mem_cons_self) hst hconsistent
    refine ⟨hb, fun g hg => ?_⟩
    rcases List.mem_cons.mp hg with rfl | hg
    · exact hchain
    · exact hall g hg

theorem hangRow_consistent {draft next : ChannelTree} {reachable marked : List ChannelID}
    {row : Channel} (hnew : row.id ∉ reachable)
    (hnext : hangRow (draft, reachable) row = some (next, marked)) : next.consistent = false := by
  rw [hangRow] at hnext
  dsimp only at hnext
  rw [if_neg hnew] at hnext
  obtain ⟨c, -, hnext⟩ := Option.bind_eq_some_iff.mp hnext
  obtain ⟨list, -, hnext⟩ := Option.bind_eq_some_iff.mp hnext
  obtain ⟨marked', -, hnext⟩ := Option.bind_eq_some_iff.mp hnext
  obtain ⟨rfl, -⟩ := Prod.mk.inj (Option.some.inj hnext)
  rfl

theorem mem_of_hung {rows : List Channel} {draft next : ChannelTree}
    {reachable marked : List ChannelID}
    (hnext : rows.foldlM hangRow (draft, reachable) = some (next, marked))
    (h : next.consistent = true) : next = draft ∧ ∀ row ∈ rows, row.id ∈ reachable := by
  induction rows generalizing draft reachable with
  | nil =>
    obtain ⟨rfl, -⟩ := Prod.mk.inj (Option.some.inj hnext)
    exact ⟨rfl, fun row hrow => absurd hrow List.not_mem_nil⟩
  | cons row rows ih =>
    rw [List.foldlM_cons] at hnext
    obtain ⟨⟨mid, marked'⟩, hmid, hnext⟩ := Option.bind_eq_some_iff.mp hnext
    obtain ⟨rfl, hall⟩ := ih hnext
    by_cases hseen : row.id ∈ reachable
    · rw [hangRow_of_mem hseen] at hmid
      obtain ⟨rfl, rfl⟩ := Prod.mk.inj (Option.some.inj hmid)
      refine ⟨rfl, fun r hr => ?_⟩
      rcases List.mem_cons.mp hr with rfl | hr
      · exact hseen
      · exact hall r hr
    · rw [hangRow_consistent hseen hmid] at h
      cases h

/-- Settling finds no flaw, and forgets none. -/
theorem settleAfter_consistent {draft next : ChannelTree} {order : ChannelID}
    {list : List ChannelID} (hnext : settleAfter draft order list = some next) :
    next.consistent = draft.consistent := by
  induction list generalizing draft order with
  | nil => rw [Option.some.inj hnext]
  | cons id list ih =>
    rw [settleAfter] at hnext
    obtain ⟨channel, -, hnext⟩ := Option.bind_eq_some_iff.mp hnext
    rw [ih hnext]
    split
    · rfl
    · rfl

theorem foldlM_settleGroup_consistent {groups : List (ChannelID × List ChannelID)}
    {draft next : ChannelTree} (hnext : groups.foldlM settleGroup draft = some next) :
    next.consistent = draft.consistent := by
  induction groups generalizing draft with
  | nil => rw [Option.some.inj hnext]
  | cons group groups ih =>
    rw [List.foldlM_cons] at hnext
    obtain ⟨mid, hmid, hnext⟩ := Option.bind_eq_some_iff.mp hnext
    rw [ih hnext]
    rw [settleGroup] at hmid
    split at hmid
    · rw [← Option.some.inj hmid]
    · exact settleAfter_consistent hmid

/-! ### Just the forests -/

/-- **Rows that make a consistent tree** are a valid forest. -/
theorem valid_of_consistent {rows : List Channel} {tree : ChannelTree}
    (htree : fromChannels rows = some tree) (h : tree.consistent = true) : ValidForest rows := by
  have hok := (rowsOk_read rows).1
  have hgrouped : Grouped _ _ _ (grouping rows) := grouped_read hok
  rw [fromChannels] at htree
  obtain ⟨sorted, hsorted, htree⟩ := Option.bind_eq_some_iff.mp htree
  obtain ⟨reachable, hmark, htree⟩ := Option.bind_eq_some_iff.mp htree
  obtain ⟨⟨draft, marked⟩, hhang, htree⟩ := Option.bind_eq_some_iff.mp htree
  -- from the last step back: none of them found a flaw
  rw [foldlM_settleGroup_consistent htree] at h
  obtain ⟨rfl, hreached⟩ := mem_of_hung hhang h
  have hgroupids : ∀ group ∈ (grouping rows).byParent.entries,
      (group.2.map Channel.id).Nodup := by
    rintro ⟨p, list⟩ hgroup
    rw [group_entries hgrouped hgroup]
    exact hok.nodup.sublist (List.filter_sublist.map _)
  obtain ⟨hfiled, hchains⟩ := chained_of_sorted hgroupids hsorted h
  have hheld : ∀ row ∈ (rows.foldl addRow {}).rows,
      (rows.foldl addRow {}).channels.has row.id = true := fun row hrow =>
    InsertionMap.has_iff.mpr ⟨row, hok.get?_eq hrow⟩
  obtain ⟨hread, hplaced⟩ := not_misplaced_of_consistent (fun _ => rfl) hheld hfiled
  obtain ⟨-, hnodup, htop⟩ := distinct_of_read (rowsOk_read []).1 hread
  have hrows : (rows.foldl addRow {}).rows = rows :=
    (read_of_distinct (rowsOk_read []).1 hnodup htop).1
  rw [hrows] at hplaced hreached
  have hgroup : ∀ p, group (rows.foldl addRow {}) p = siblingsOf rows p := by
    intro p
    rw [group, hrows, siblingsOf]
    refine List.filter_congr fun row hrow => ?_
    rw [filedUnder, if_neg (hplaced row hrow)]
  have hchain : ∀ p, ∃ chain, (siblingsOf rows p).Perm chain ∧ Chained topChannel chain := by
    intro p
    have hgroups := hgrouped.groups p
    rw [← hgroup, group, ← hgroups]
    cases hget : (grouping rows).byParent.get? p with
    | none => exact ⟨[], List.Perm.refl _, trivial⟩
    | some list => exact hchains (p, list) (InsertionMap.mem_entries.mpr hget)
  refine ⟨hnodup, htop, fun row hrow => ?_, ?_, hchain, fun p => ?_⟩
  · by_contra hparent
    rw [not_or] at hparent
    refine hplaced row hrow ⟨hparent.1, Or.inr (InsertionMap.has_eq_false.mpr ?_)⟩
    cases hget : (rows.foldl addRow {}).channels.get? row.parentID with
    | none => rfl
    | some c => exact absurd (hrows ▸ hok.held_iff.mp ⟨c, hget⟩) hparent.2
  · -- what the top reaches hangs below no part of itself
    obtain ⟨sorted', hsorted', hchannels, -, hlists⟩ := sorted_spec rows
      (P := fun p out => out.Perm ((group (rows.foldl addRow {}) p).map Channel.id))
      (Q := False)
      (fun p b => by
        obtain ⟨st, hst, hperm⟩ := sortSiblings_perm (group (rows.foldl addRow {}) p)
          (hok.nodup.sublist (List.filter_sublist.map _)) b
        exact ⟨st, hst, hperm, False.elim⟩)
      (fun p hnil => by
        rw [hnil]
        exact List.Perm.refl _)
    obtain rfl := Option.some.inj (hsorted.symm.trans hsorted')
    obtain ⟨F, hlinked⟩ := linked_of_sorted hok hgrouped hchannels hlists
    obtain ⟨reachable', hmark', hreachable⟩ := reachable_mark hlinked
    obtain rfl := Option.some.inj (hmark.symm.trans hmark')
    have hkid : ∀ {p x}, NamesParent rows p x → x ∈ F.kids p := by
      rintro p x ⟨row, hrow, rfl, rfl⟩
      rw [← hlinked.kids, (hlists _).mem_iff, hgroup]
      exact List.mem_map_of_mem (List.mem_filter.mpr ⟨hrow, decide_eq_true rfl⟩)
    have hrooted := (hlinked.holds fun x c hc => by
      obtain ⟨row, hrow, rfl⟩ := List.mem_map.mp (hrows ▸ hok.held_iff.mp
        (InsertionMap.has_iff.mp ((hchannels ▸ hgrouped.has x).symm.trans
          (InsertionMap.has_iff.mpr ⟨c, hc⟩))))
      exact hreachable.reach _ (hreached row hrow)).rooted
    intro x hcycle
    obtain ⟨y, hy, hyx⟩ := Relation.TransGen.head'_iff.mp hcycle
    exact hrooted.acyclic (hkid hy) (Relation.ReflTransGen.mono (fun _ _ => hkid) y x hyx)
  · obtain ⟨chain, hperm, hchain⟩ := hchain p
    refine nodup_orders hperm hchain (List.nodup_cons.mpr ⟨?_, ?_⟩)
    · intro hmem
      obtain ⟨c, hc, hid⟩ := List.mem_map.mp hmem
      exact htop c (List.mem_of_mem_filter (hperm.mem_iff.mpr hc)) hid
    · exact (hperm.map _).nodup_iff.mp (hnodup.sublist (List.filter_sublist.map _))

/-- The children of a parent, in a tree whose records are the rows: they are the rows under
it, each with the order of its place. -/
theorem children_of_rows {rows : List Channel} {tree : ChannelTree} {F : Family ChannelID}
    (hrows : RowsOf F rows) (h : Represents tree F noneLoose)
    (hrecords : ∀ row ∈ rows, tree.get row.id = some row) (p : ChannelID) :
    (tree.children p).Perm (siblingsOf rows p) ∧ Chained topChannel (tree.children p) := by
  have hplaces : ∀ x ∈ F.kids p, ∃ c, tree.get x = some c ∧ c.id = x ∧
      c.order = predecessor topChannel (F.kids p) x := by
    intro x hx
    obtain ⟨c, hc, -⟩ := h.kid hx
    exact ⟨c, hc, h.id hc, h.ordered p x hx c hc⟩
  obtain ⟨hchain, hids⟩ := chained_of_predecessor (F.nodup p) hplaces
  rw [children, h.kids]
  refine ⟨?_, hchain⟩
  rw [List.perm_ext_iff_of_nodup]
  · intro c
    rw [List.mem_filterMap, siblingsOf, List.mem_filter, decide_eq_true_eq]
    constructor
    · rintro ⟨x, hx, hc⟩
      obtain ⟨row, hrow, rfl⟩ := List.mem_map.mp (hrows.all hx)
      obtain rfl := Option.some.inj ((hrecords row hrow).symm.trans hc)
      exact ⟨hrow, F.unique (hrows.row row hrow).1 hx⟩
    · rintro ⟨hc, rfl⟩
      exact ⟨c.id, (hrows.row c hc).1, hrecords c hc⟩
  · exact List.Nodup.of_map _ (hids.symm ▸ F.nodup p)
  · exact (List.Nodup.of_map _ hrows.nodup).filter _

/-- **Just the valid forests make consistent trees**, and those whatever the order of the
rows: each row is kept as it is, and siblings come in the order of their chain. -/
theorem fromChannels_consistent_iff (rows : List Channel) :
    ∃ tree, fromChannels rows = some tree ∧ (tree.consistent = true ↔ ValidForest rows) ∧
      (ValidForest rows →
        (∀ row ∈ rows, tree.get row.id = some row) ∧
        (∀ p, (tree.children p).Perm (siblingsOf rows p) ∧
          Chained topChannel (tree.children p)) ∧
        ∀ rows' : List Channel, rows'.Perm rows →
          ∃ tree', fromChannels rows' = some tree' ∧ tree'.consistent = true ∧
            tree'.size = tree.size ∧ Same tree tree') := by
  obtain ⟨tree, -, htree, -, -⟩ := fromChannels_spec rows
  have hvalid : ValidForest rows → tree.consistent = true ∧ ∃ F, RowsOf F rows ∧
      Represents tree F noneLoose ∧ ∀ row ∈ rows, tree.get row.id = some row := by
    intro h
    obtain ⟨F, hrows⟩ := h.rowsOf
    obtain ⟨tree', htree', hrep, hconsistent, hrecords⟩ := fromChannels_of_family hrows
    obtain rfl := Option.some.inj (htree.symm.trans htree')
    exact ⟨hconsistent, F, hrows, hrep, hrecords⟩
  refine ⟨tree, htree, ⟨valid_of_consistent htree, fun h => (hvalid h).1⟩, fun h => ?_⟩
  obtain ⟨-, F, hrows, hrep, hrecords⟩ := hvalid h
  refine ⟨hrecords, children_of_rows hrows hrep hrecords, fun rows' hperm => ?_⟩
  have hrows' : RowsOf F rows' :=
    ⟨(hperm.map _).nodup_iff.mpr hrows.nodup, fun c hc => hrows.row c (hperm.mem_iff.mp hc),
      fun hx => (hperm.map _).mem_iff.mpr (hrows.all hx), hrows.rooted⟩
  obtain ⟨tree', htree', hrep', hconsistent, hrecords'⟩ := fromChannels_of_family hrows'
  have hsame : Same tree tree' := hrep.same hrep' fun x c hc => by
    obtain ⟨p, hp⟩ := hrep.held_iff_listed.mp ⟨c, hc⟩
    obtain ⟨row, hrow, rfl⟩ := List.mem_map.mp (hrows.all hp)
    obtain rfl := Option.some.inj ((hrecords row hrow).symm.trans hc)
    exact hrecords' row (hperm.mem_iff.mpr hrow)
  exact ⟨tree', htree', hconsistent, hsame.size.symm, hsame⟩

end Teamspeak.ChannelTree
