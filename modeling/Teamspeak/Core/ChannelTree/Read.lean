import Teamspeak.Core.ChannelTree.Sort

/-!
# Reading rows

The first half of `fromChannels`: the rows are read (`rowsOk_read`), filed under the
parents they can have (`grouped_read`), and sorted (`foldlM_sortGroup`).
-/

namespace Teamspeak.ChannelTree

/-! ### Reading -/

/-- The record of every id read is the row that counts. -/
structure RowsOk (st : Rows) : Prop where
  entries : st.channels.entries = st.rows.map fun row => (row.id, row)
  ne_top : ∀ row ∈ st.rows, row.id ≠ topChannel

namespace RowsOk

variable {st : Rows} (h : RowsOk st)
include h

theorem nodup : (st.rows.map Channel.id).Nodup := by
  have hnodup := st.channels.nodup
  rwa [h.entries, List.map_map] at hnodup

theorem get?_eq {row : Channel} (hrow : row ∈ st.rows) :
    st.channels.get? row.id = some row := by
  rw [← InsertionMap.mem_entries, h.entries]
  exact List.mem_map_of_mem hrow

theorem mem_rows {x : ChannelID} {c : Channel} (hc : st.channels.get? x = some c) :
    c ∈ st.rows ∧ c.id = x := by
  rw [← InsertionMap.mem_entries, h.entries] at hc
  obtain ⟨row, hrow, heq⟩ := List.mem_map.mp hc
  cases heq
  exact ⟨hrow, rfl⟩

theorem held_iff {x : ChannelID} :
    (∃ c, st.channels.get? x = some c) ↔ x ∈ st.rows.map Channel.id := by
  constructor
  · rintro ⟨c, hc⟩
    obtain ⟨hrow, rfl⟩ := h.mem_rows hc
    exact List.mem_map_of_mem hrow
  · intro hx
    obtain ⟨row, hrow, rfl⟩ := List.mem_map.mp hx
    exact ⟨row, h.get?_eq hrow⟩

end RowsOk

/-- Replacing the one element with a given key. -/
theorem set_findIdx {α β : Type} [DecidableEq β] {f : α → β} {l : List α}
    (hnodup : (l.map f).Nodup) {k : β} (hk : k ∈ l.map f) (a : α) :
    l.set (l.findIdx fun b => f b = k) a = l.map fun b => if f b = k then a else b := by
  induction l with
  | nil => exact absurd hk List.not_mem_nil
  | cons b l ih =>
    rw [List.map_cons, List.nodup_cons] at hnodup
    rw [List.findIdx_cons, List.map_cons]
    by_cases hb : f b = k
    · rw [if_pos hb, decide_eq_true hb]
      show a :: l = a :: _
      congr 1
      symm
      refine (List.map_congr_left ?_).trans (List.map_id _)
      intro c hc
      have hne : f c ≠ k := by
        rintro rfl
        exact hnodup.1 (hb ▸ List.mem_map_of_mem hc)
      exact if_neg hne
    · rw [if_neg hb, decide_eq_false hb]
      show b :: l.set _ a = b :: _
      rw [ih hnodup.2 ((List.mem_cons.mp hk).resolve_left fun h => hb h.symm)]

/-- One more row: the record under its id, and no other, is the new one. -/
theorem rowsOk_addRow {st : Rows} (h : RowsOk st) (channel : Channel) :
    RowsOk (addRow st channel) ∧ ∀ x, x ∈ (addRow st channel).rows.map Channel.id ↔
      x ∈ st.rows.map Channel.id ∨ x = channel.id ∧ x ≠ topChannel := by
  unfold addRow
  by_cases htop : channel.id = topChannel
  · rw [if_pos htop]
    refine ⟨⟨h.entries, h.ne_top⟩, fun x => (or_iff_left ?_).symm⟩
    rintro ⟨rfl, hne⟩
    exact hne htop
  · rw [if_neg htop]
    by_cases hhas : st.channels.has channel.id = true
    · rw [if_pos hhas]
      obtain ⟨old, hold⟩ := InsertionMap.has_iff.mp hhas
      have hmem : channel.id ∈ st.rows.map Channel.id := h.held_iff.mp ⟨old, hold⟩
      have hset := set_findIdx h.nodup hmem channel
      have hids : (st.rows.map fun row => if row.id = channel.id then channel else row).map
          Channel.id = st.rows.map Channel.id := by
        rw [List.map_map]
        apply List.map_congr_left
        intro row _
        by_cases hrow : row.id = channel.id
        · simp [hrow]
        · simp [hrow]
      refine ⟨⟨?_, ?_⟩, ?_⟩
      · simp only [hset]
        rw [InsertionMap.entries_set hold, h.entries, List.map_map, List.map_map]
        apply List.map_congr_left
        intro row _
        by_cases hrow : row.id = channel.id
        · simp [hrow]
        · simp [hrow]
      · simp only [hset]
        intro row hrow
        obtain ⟨old, hmem, rfl⟩ := List.mem_map.mp hrow
        by_cases hold : old.id = channel.id
        · simpa [hold] using htop
        · simpa [hold] using h.ne_top old hmem
      · simp only [hset, hids]
        intro x
        refine (or_iff_left_of_imp ?_).symm
        rintro ⟨rfl, -⟩
        exact hmem
    · rw [if_neg hhas]
      have hnone : st.channels.get? channel.id = none :=
        InsertionMap.has_eq_false.mp (Bool.eq_false_iff.mpr hhas)
      refine ⟨⟨?_, ?_⟩, ?_⟩
      · show (st.channels.set channel.id channel).entries = (st.rows ++ [channel]).map _
        rw [InsertionMap.entries_set_of_none hnone, h.entries, List.map_append]
        rfl
      · intro row hrow
        rcases List.mem_append.mp hrow with hrow | hrow
        · exact h.ne_top row hrow
        · exact List.mem_singleton.mp hrow ▸ htop
      · intro x
        show x ∈ (st.rows ++ [channel]).map Channel.id ↔ _
        rw [List.map_append, List.mem_append]
        refine or_congr_right ?_
        simp only [List.map_cons, List.map_nil, List.mem_singleton]
        exact ⟨fun hx => ⟨hx, hx ▸ htop⟩, fun hx => hx.1⟩

theorem rowsOk_foldl (channels : List Channel) (st : Rows) (h : RowsOk st) :
    RowsOk (channels.foldl addRow st) ∧
      ∀ x, x ∈ (channels.foldl addRow st).rows.map Channel.id ↔
        x ∈ st.rows.map Channel.id ∨ x ≠ topChannel ∧ x ∈ channels.map Channel.id := by
  induction channels generalizing st with
  | nil => exact ⟨h, fun x => by simp⟩
  | cons channel channels ih =>
    obtain ⟨hstep, hmem⟩ := rowsOk_addRow h channel
    obtain ⟨hok, hall⟩ := ih _ hstep
    refine ⟨hok, fun x => ?_⟩
    rw [List.foldl_cons, hall x, hmem x, List.map_cons, List.mem_cons]
    tauto

/-- **What is read**: the ids of the rows but for 0, each with the row that counts. -/
theorem rowsOk_read (channels : List Channel) :
    RowsOk (channels.foldl addRow {}) ∧
      ∀ x, x ∈ (channels.foldl addRow {}).rows.map Channel.id ↔
        x ≠ topChannel ∧ x ∈ channels.map Channel.id := by
  obtain ⟨hok, hmem⟩ := rowsOk_foldl channels {} ⟨rfl, fun _ h => absurd h List.not_mem_nil⟩
  exact ⟨hok, fun x => by simpa using hmem x⟩

/-- Rows of distinct ids, none of them 0, are read as they are. -/
theorem read_of_distinct {channels : List Channel} {st : Rows} (h : RowsOk st)
    (hnodup : ((st.rows ++ channels).map Channel.id).Nodup)
    (htop : ∀ c ∈ channels, c.id ≠ topChannel) :
    (channels.foldl addRow st).rows = st.rows ++ channels ∧
      (channels.foldl addRow st).consistent = st.consistent := by
  induction channels generalizing st with
  | nil => exact ⟨(List.append_nil _).symm, rfl⟩
  | cons channel channels ih =>
    have hne := htop channel List.mem_cons_self
    have hnew : ¬ st.channels.has channel.id = true := by
      rw [InsertionMap.has_iff, h.held_iff]
      intro hmem
      rw [List.map_append, List.map_cons] at hnodup
      exact (List.nodup_append'.mp hnodup).2.2 hmem List.mem_cons_self
    have hstep : addRow st channel =
        { st with
          rows := st.rows ++ [channel]
          channels := st.channels.set channel.id channel } := by
      unfold addRow
      rw [if_neg hne, if_neg hnew]
    have hok := (rowsOk_addRow h channel).1
    rw [hstep] at hok
    obtain ⟨hrows, hconsistent⟩ := ih hok (by
      show ((st.rows ++ [channel] ++ channels).map Channel.id).Nodup
      rwa [List.append_assoc]) fun c hc => htop c (List.mem_cons_of_mem _ hc)
    rw [List.foldl_cons, hstep]
    refine ⟨?_, hconsistent⟩
    rw [hrows]
    exact List.append_assoc _ _ _

/-! ### Filing under parents -/

/-- A parent that a row cannot have: one that is not there, or the channel itself. -/
def Misplaced (base : InsertionMap ChannelID Channel) (row : Channel) : Prop :=
  row.parentID ≠ topChannel ∧ (row.parentID = row.id ∨ base.has row.parentID = false)

instance (base : InsertionMap ChannelID Channel) (row : Channel) : Decidable (Misplaced base row) :=
  inferInstanceAs (Decidable (_ ∧ _))

/-- The parent that a row is filed under. -/
def filedUnder (base : InsertionMap ChannelID Channel) (row : Channel) : ChannelID :=
  if Misplaced base row then topChannel else row.parentID

/-- What a row is once it is filed. -/
def filed (base : InsertionMap ChannelID Channel) (row : Channel) : Channel :=
  { row with parentID := filedUnder base row }

/-- The rows of `processed` are filed, and no others. -/
structure Grouped (base : InsertionMap ChannelID Channel) (consistent : Bool)
    (processed : List Channel) (st : Grouping) : Prop where
  has : ∀ x, st.draft.channels.has x = base.has x
  filed : ∀ row ∈ processed, st.draft.channels.get? row.id = some (filed base row)
  others : ∀ x ∉ processed.map Channel.id, st.draft.channels.get? x = base.get? x
  kids : st.draft.kids = .empty
  groups : ∀ p, (st.byParent.get? p).getD [] =
    processed.filter fun row => filedUnder base row = p
  nonempty : ∀ p, st.byParent.get? p ≠ some []
  consistent : (∀ row ∈ processed, ¬ Misplaced base row) → st.draft.consistent = consistent

theorem push_ne {β : Type} {m : InsertionMap ChannelID (List β)} (h : ∀ p, m.get? p ≠ some [])
    (k : ChannelID) (b : β) (p : ChannelID) : (m.push k b).get? p ≠ some [] := by
  rw [InsertionMap.push, InsertionMap.get?_set]
  by_cases hp : k = p
  · rw [if_pos hp]
    simp
  · rw [if_neg hp]
    exact h p

theorem push_groups {m : InsertionMap ChannelID (List Channel)}
    {base : InsertionMap ChannelID Channel} {processed : List Channel}
    (h : ∀ p, (m.get? p).getD [] = processed.filter fun row => filedUnder base row = p)
    (row : Channel) (p : ChannelID) :
    ((m.push (filedUnder base row) row).get? p).getD [] =
      (processed ++ [row]).filter fun row => filedUnder base row = p := by
  rw [InsertionMap.push, InsertionMap.get?_set, List.filter_append]
  by_cases hp : filedUnder base row = p
  · rw [if_pos hp, hp, Option.getD_some, h]
    simp [hp]
  · rw [if_neg hp, h]
    simp [hp]

theorem grouped_step {base : InsertionMap ChannelID Channel} {consistent : Bool}
    {processed : List Channel} {st : Grouping} (h : Grouped base consistent processed st)
    {row : Channel} (hbase : base.get? row.id = some row)
    (hnew : row.id ∉ processed.map Channel.id) :
    Grouped base consistent (processed ++ [row]) (groupRow st row) := by
  have hids : (processed ++ [row]).map Channel.id = processed.map Channel.id ++ [row.id] := by
    rw [List.map_append]
    rfl
  have hmisplaced : (row.parentID ≠ topChannel ∧
      (row.parentID = row.id ∨ st.draft.channels.has row.parentID = false)) ↔
        Misplaced base row := by
    rw [h.has]
    exact Iff.rfl
  have hne : ∀ r ∈ processed, row.id ≠ r.id :=
    fun r hr heq => hnew (heq ▸ List.mem_map_of_mem hr)
  unfold groupRow
  by_cases hrow : Misplaced base row
  · rw [if_pos (hmisplaced.mpr hrow)]
    have hparent : filedUnder base row = topChannel := if_pos hrow
    refine ⟨?_, ?_, ?_, h.kids, ?_, ?_, ?_⟩
    · intro x
      show (st.draft.channels.set _ _).has x = _
      rw [InsertionMap.has, InsertionMap.get?_set, ← h.has]
      by_cases hx : row.id = x
      · have hget := h.others x (hx ▸ hnew)
        rw [if_pos hx, InsertionMap.has, hget, ← hx, hbase]
        rfl
      · rw [if_neg hx]
        rfl
    · intro r hr
      rcases List.mem_append.mp hr with hr | hr
      · exact (InsertionMap.get?_set_ne _ _ (hne r hr)).trans (h.filed r hr)
      · rw [List.mem_singleton.mp hr]
        unfold filed
        rw [hparent]
        exact InsertionMap.get?_set_self ..
    · intro x hx
      rw [hids, List.mem_append, List.mem_singleton, not_or] at hx
      exact (InsertionMap.get?_set_ne _ _ fun heq => hx.2 heq.symm).trans (h.others x hx.1)
    · rw [← hparent]
      exact push_groups h.groups row
    · exact push_ne h.nonempty _ _
    · intro hall
      exact absurd hrow (hall row (by simp))
  · rw [if_neg fun hp => hrow (hmisplaced.mp hp)]
    have hparent : filedUnder base row = row.parentID := if_neg hrow
    refine ⟨h.has, ?_, ?_, h.kids, ?_, ?_, ?_⟩
    · intro r hr
      rcases List.mem_append.mp hr with hr | hr
      · exact h.filed r hr
      · rw [List.mem_singleton.mp hr]
        unfold filed
        rw [hparent]
        exact (h.others row.id hnew).trans hbase
    · intro x hx
      rw [hids, List.mem_append, not_or] at hx
      exact h.others x hx.1
    · rw [← hparent]
      exact push_groups h.groups row
    · exact push_ne h.nonempty _ _
    · exact fun hall => h.consistent fun r hr => hall r (List.mem_append_left _ hr)

theorem grouped_foldl {base : InsertionMap ChannelID Channel} {consistent : Bool}
    {processed rest : List Channel} {st : Grouping} (h : Grouped base consistent processed st)
    (hbase : ∀ row ∈ rest, base.get? row.id = some row)
    (hnodup : ((processed ++ rest).map Channel.id).Nodup) :
    Grouped base consistent (processed ++ rest) (rest.foldl groupRow st) := by
  induction rest generalizing processed st with
  | nil => rwa [List.append_nil]
  | cons row rest ih =>
    have hnew : row.id ∉ processed.map Channel.id := by
      intro hmem
      rw [List.map_append, List.map_cons] at hnodup
      exact (List.nodup_append'.mp hnodup).2.2 hmem List.mem_cons_self
    have hstep := grouped_step h (hbase row List.mem_cons_self) hnew
    have hsplit : processed ++ row :: rest = (processed ++ [row]) ++ rest := by
      rw [List.append_assoc]
      rfl
    rw [List.foldl_cons, hsplit]
    exact ih hstep (fun r hr => hbase r (List.mem_cons_of_mem _ hr)) (hsplit ▸ hnodup)

/-- **The rows are filed** under parents they can have. -/
theorem grouped_read {st : Rows} (h : RowsOk st) :
    Grouped st.channels st.consistent st.rows
      (st.rows.foldl groupRow
        { draft := { channels := st.channels, consistent := st.consistent } }) := by
  have hstart : Grouped st.channels st.consistent []
      { draft := { channels := st.channels, consistent := st.consistent } } :=
    ⟨fun _ => rfl, fun _ hr => absurd hr List.not_mem_nil, fun _ _ => rfl, rfl, fun _ => rfl,
      fun _ => nofun, fun _ => rfl⟩
  exact grouped_foldl hstart (fun row hrow => h.get?_eq hrow) h.nodup

/-! ### Sorting every group -/

/-- **Every group is sorted.**  `P` is what is said of the list of a group, and where
`Q` holds no group has a flaw. -/
theorem foldlM_sortGroup {P : ChannelID → List ChannelID → Prop} {Q : Prop}
    {groups : List (ChannelID × List Channel)} (hnodup : (groups.map Prod.fst).Nodup)
    (hsort : ∀ group ∈ groups, ∀ b, ∃ st, sortSiblings group.2 b = some st ∧ P group.1 st.out ∧
      (Q → st.consistent = b)) (draft : ChannelTree) :
    ∃ next, groups.foldlM sortGroup draft = some next ∧ next.channels = draft.channels ∧
      (Q → next.consistent = draft.consistent) ∧
      (∀ p ∈ groups.map Prod.fst, ∃ out, next.kids.get? p = some out ∧ P p out) ∧
      ∀ p ∉ groups.map Prod.fst, next.kids.get? p = draft.kids.get? p := by
  induction groups generalizing draft with
  | nil => exact ⟨draft, rfl, rfl, fun _ => rfl, fun p hp => absurd hp List.not_mem_nil,
      fun _ _ => rfl⟩
  | cons group groups ih =>
    rw [List.map_cons, List.nodup_cons] at hnodup
    obtain ⟨st, hst, hP, hQ⟩ := hsort group List.mem_cons_self draft.consistent
    obtain ⟨next, hnext, hchannels, hconsistent, hin, hout⟩ :=
      ih hnodup.2 (fun g hg => hsort g (List.mem_cons_of_mem _ hg))
        { draft with kids := draft.kids.set group.1 st.out, consistent := st.consistent }
    refine ⟨next, ?_, hchannels, fun hq => (hconsistent hq).trans (hQ hq), ?_, ?_⟩
    · rw [List.foldlM_cons, sortGroup, hst]
      exact hnext
    · intro p hp
      rw [List.map_cons, List.mem_cons] at hp
      by_cases hpg : p ∈ groups.map Prod.fst
      · exact hin p hpg
      · have hself : p = group.1 := hp.resolve_right hpg
        refine ⟨st.out, ?_, hself ▸ hP⟩
        rw [hout p hpg, hself]
        exact InsertionMap.get?_set_self ..
    · intro p hp
      rw [List.map_cons, List.mem_cons, not_or] at hp
      rw [hout p hp.2]
      exact InsertionMap.get?_set_ne _ _ fun h => hp.1 h.symm

end Teamspeak.ChannelTree
